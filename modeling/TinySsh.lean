import TinySsh.Lib.Lts
import TinySsh.Lib.Text
import TinySsh.Lib.Zipper
import TinySsh.Lib.Readline
import TinySsh.Lib.Words
import TinySsh.Lib.Ranked
import TinySsh.Lib.Decimal
import TinySsh.Lib.Cut
import TinySsh.Keys.Mouse
import TinySsh.Keys.Stream
import TinySsh.Target
import TinySsh.Term
import TinySsh.Term.Grammar
import TinySsh.Term.Reports
import TinySsh.Term.Directory
import TinySsh.Term.Url
import TinySsh.History
import TinySsh.History.Calls
import TinySsh.History.Ranking
import TinySsh.History.Like
import TinySsh.HostKeys
import TinySsh.HostKeys.Bookkeeping
import TinySsh.Client
import TinySsh.Client.Announce
import TinySsh.Client.Trust
import TinySsh.App.Bounds
import TinySsh.App.Bytes
import TinySsh.App.Chunks
import TinySsh.App.Completion
import TinySsh.App.Suggestion
import TinySsh.App.Gate
import TinySsh.App.Reference
import TinySsh.App.Readline
import TinySsh.App.Prompt
import TinySsh.App.Record
import TinySsh.App.Words
import TinySsh.App.Source
import TinySsh.App.Echo
import TinySsh.Screen
import TinySsh.Screen.Viewport
import TinySsh.Session.Stream
import TinySsh.Session.Drain
import TinySsh.Session.Relay
import TinySsh.Session.Wait
import TinySsh.Ui.Wheel
import TinySsh.Ui.Deadlock
import TinySsh.Ui.Quit
import TinySsh.Ui.Reach
import TinySsh.Ui.Mirror
import TinySsh.Ui.Rest
import TinySsh.Ui.Paste
import TinySsh.Tui
import TinySsh.Tui.Sync
import TinySsh.Tui.Ghost
import TinySsh.Tui.Restore
import TinySsh.Tui.Size
import TinySsh.Main

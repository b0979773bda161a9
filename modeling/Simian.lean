import Simian.Lib.Chunks
import Simian.Lib.Dict
import Simian.Lib.Digits
import Simian.Lib.Failing
import Simian.Lib.Fifo
import Simian.Lib.FirstMax
import Simian.Lib.Grid
import Simian.Lib.Http
import Simian.Lib.Journal
import Simian.Lib.Json.Dump
import Simian.Lib.Json.Load
import Simian.Lib.Json.Raw
import Simian.Lib.Json.RoundTrip
import Simian.Lib.Json.Text
import Simian.Lib.Json.Value
import Simian.Lib.Keywords
import Simian.Lib.Linearizable
import Simian.Lib.Lines
import Simian.Lib.Lowercase
import Simian.Lib.Machine
import Simian.Lib.Paths
import Simian.Lib.Python
import Simian.Lib.Routing
import Simian.Lib.SequenceMatcher
import Simian.Lib.Sha256
import Simian.Lib.Snapshots
import Simian.Lib.Subprocess
import Simian.Services.ScreenMonitor
import Simian.Services.ScreenMonitor.Stop
import Simian.Modules.ScreenRecorder.Frames
import Simian.Modules.ScreenRecorder.ClipName
import Simian.Modules.ScreenRecorder.Worker
import Simian.Modules.ScreenRecorder.Capture
import Simian.Modules.ScreenRecorder.Finalise
import Simian.Modules.ScreenRecorder.Geometry
import Simian.Modules.ScreenRecorder.Pace
import Simian.Modules.ScreenRecorder.Control
import Simian.Modules.ScreenRecorder.Calls
import Simian.Modules.ScreenRecorder.Clips
import Simian.Modules.ScreenRecorder.Progress
import Simian.Gui.SimianGui
import Simian.Gui.Timers
import Simian.Gui.RefreshClips
import Simian.Memory.Failure
import Simian.Memory.Lists
import Simian.Memory.MemoryManager
import Simian.Memory.Persistence
import Simian.Memory.Recall
import Simian.Memory.SharedPath
import Simian.Services.FileScanner
import Simian.Services.FileScanner.Extensions
import Simian.Services.FileScanner.ScanPath
import Simian.Services.FileScanner.ReadBack
import Simian.Services.Recognizer
import Simian.Services.MicListener
import Simian.Services.MicListener.Audio
import Simian.Services.OllamaClient
import Simian.Modules.LlmClient
import Simian.Routes.Chat
import Simian.Routes.Chat.Server
import Simian.Gui.Conversation
import Simian.Routes.Screen
import Simian.Routes.ContextStore
import Simian.Routes.Cli
import Simian.MlEngine.ModelManager
import Simian.ListenerBootstrap
import Simian.ListenerBootstrap.Audio
import Simian.ListenerBootstrap.Configured
import Simian.ListenerBootstrap.Similarity
import Simian.Main
import Simian.SimianLauncher

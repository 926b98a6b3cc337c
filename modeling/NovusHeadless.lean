import NovusHeadless.Lib.Cuts
import NovusHeadless.Lib.Components
import NovusHeadless.Lib.Erasure
import NovusHeadless.Lib.Loop
import NovusHeadless.Lib.Exploration
import NovusHeadless.Lib.Cells
import NovusHeadless.Lib.SteadyPowers
import NovusHeadless.Connection.Runs
import NovusHeadless.Connection.Login
import NovusHeadless.Connection.StatusRecords
import NovusHeadless.Connection.BufferBounds
import NovusHeadless.Connection.FailureReplies
import NovusHeadless.Connection.EmptyRead
import NovusHeadless.Connection.Fragmentation
import NovusHeadless.Connection.Coalescing
import NovusHeadless.Connection.KeyAgreement
import NovusHeadless.Connection.SecretVariation
import NovusHeadless.Connection.Transcript
import NovusHeadless.Connection.LogonChallenge
import NovusHeadless.Lib.Fifo
import NovusHeadless.Networking.ReceiveBuffer
import NovusHeadless.Networking.Serialization
import NovusHeadless.Networking.RawWrites
import NovusHeadless.Networking.PackedGuid
import NovusHeadless.Networking.ReadString
import NovusHeadless.Networking.PartialWrites
import NovusHeadless.Cryptography.ByteOrders
import NovusHeadless.Cryptography.HashArguments
import NovusHeadless.Cryptography.StreamCrypto
import NovusHeadless.Cryptography.CipherDuality
import NovusHeadless.Connection.Threads
import NovusHeadless.Connection.ThreadSteps
import NovusHeadless.Connection.StatusOrder
import NovusHeadless.Connection.AfterClose
import NovusHeadless.Connection.Credentials
import NovusHeadless.Connection.SingleRead
import NovusHeadless.Connection.StaleBytes
import NovusHeadless.Scripting.Observers
import NovusHeadless.Scripting.ContextAccounting
import NovusHeadless.Scripting.HookRegistration
import NovusHeadless.Scripting.ScriptHandler
import NovusHeadless.Scripting.Tokenizer
import NovusHeadless.Scripting.ConditionalCode
import NovusHeadless.Scripting.ConditionalBlocks
import NovusHeadless.Scripting.SectionScan
import NovusHeadless.Scripting.SectionBounds
import NovusHeadless.Scripting.FilePaths
import NovusHeadless.Scripting.ScriptSections
import NovusHeadless.Scripting.ScriptArray
import NovusHeadless.Scripting.ArrayOperations
import NovusHeadless.Scripting.ArrayRuns
import NovusHeadless.Scripting.ArrayLifetime
import NovusHeadless.Scripting.ArraySort
import NovusHeadless.Scripting.StringUtilities
import NovusHeadless.Lib.KeyedTree
import NovusHeadless.Lib.Fnv1a
import NovusHeadless.Lib.FormatString
import NovusHeadless.Lib.Terminated
import NovusHeadless.Lib.Sparse
import NovusHeadless.Config.ConfigHandler
import NovusHeadless.Console.ClientHandler
import NovusHeadless.Console.PingExit
import NovusHeadless.Console.ConsoleCommands
import NovusHeadless.Console.Dispatch
import NovusHeadless.Console.ReferenceHash
import NovusHeadless.Console.DebugHandler
import NovusHeadless.Console.Lifecycle
import NovusHeadless.Utils.SharedPool

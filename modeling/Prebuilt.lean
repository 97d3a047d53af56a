import Prebuilt.Cli.Run
import Prebuilt.Command.Words
import Prebuilt.Log.Json
import Prebuilt.Main
import Prebuilt.Manifest.Grammar
import Prebuilt.Manifest.Writer
import Prebuilt.Shell.Host
import Prebuilt.Proofs.Build.Freshness
import Prebuilt.Proofs.Build.History
import Prebuilt.Proofs.Build.Source
import Prebuilt.Proofs.Log.Gate
import Prebuilt.Proofs.Manifest.Scan
import Prebuilt.Proofs.Manifest.Lines
import Prebuilt.Proofs.Manifest.Reading
import Prebuilt.Proofs.Manifest.RoundTrip
import Prebuilt.Proofs.Command.Arguments
import Prebuilt.Proofs.Command.Operands
import Prebuilt.Proofs.Cli.ExitCode
import Prebuilt.Proofs.FileTree.Changes
import Prebuilt.Proofs.Log.Reach
import Prebuilt.Proofs.Cli.Refusal
import Prebuilt.Proofs.Build.Rebuild
import Prebuilt.Proofs.Cli.Layers
import Prebuilt.Proofs.Log.JsonLine
import Prebuilt.Proofs.Command.Name
import Prebuilt.Proofs.FileTree.Copy
import Prebuilt.Proofs.Stage
import Prebuilt.Proofs.Manifest.LineNumbers
import Prebuilt.Proofs.Manifest.LineEndings
import Prebuilt.Proofs.Manifest.Resume
import Prebuilt.Proofs.Manifest.Meaning
import Prebuilt.Proofs.Manifest.LastValues
import Prebuilt.Proofs.Build.Previous
import Prebuilt.Proofs.Build.Frame
import Prebuilt.Proofs.Log.Shorthand
import Prebuilt.Proofs.Log.LeastLevel
import Prebuilt.Proofs.Log.Precedence
import Prebuilt.Proofs.Cli.Arrangement
import Prebuilt.Proofs.Toolchain.Resolution
import Prebuilt.Proofs.Toolchain.Runnable
import Prebuilt.Proofs.Stage.Stop
import Prebuilt.Proofs.Stage.Directives
import Prebuilt.Proofs.Log.Delivery
import Prebuilt.Proofs.Archive.Members
import Prebuilt.Proofs.Archive.Digest

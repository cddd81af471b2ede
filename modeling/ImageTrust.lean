import ImageTrust.Text.Blank
import ImageTrust.Text.Decimal
import ImageTrust.Text.Lower
import ImageTrust.Text.Utf8
import ImageTrust.Template
import ImageTrust.Fragment
import ImageTrust.Dockerfile.Stage
import ImageTrust.Yaml.Quoted
import ImageTrust.Yaml.Plain
import ImageTrust.Yaml.Block
import ImageTrust.Yaml.TokenStream
import ImageTrust.Yaml.Scalar
import ImageTrust.Yaml.Document
import ImageTrust.Yaml.Grammar
import ImageTrust.Yaml.Merging
import ImageTrust.Yaml.Construction
import ImageTrust.Records
import ImageTrust.Workspace
import ImageTrust.EnvironmentFile
import ImageTrust.ConfigFile
import ImageTrust.CommandLine.Run
import ImageTrust.Main
import ImageTrust.Proofs.Certificate.Installation
import ImageTrust.Proofs.Dockerfile.Comments
import ImageTrust.Proofs.Dockerfile.Resolution
import ImageTrust.Proofs.Dockerfile.Continuation
import ImageTrust.Proofs.Dockerfile.Reading
import ImageTrust.Proofs.Dockerfile.FromLine
import ImageTrust.Proofs.Dockerfile.Writing
import ImageTrust.Proofs.Certificate.Rendering
import ImageTrust.Proofs.Certificate.Appending
import ImageTrust.Proofs.Config.Overrides
import ImageTrust.Proofs.Config.Rejection
import ImageTrust.Proofs.Dockerfile.Placeholders
import ImageTrust.Proofs.Template.Layout
import ImageTrust.Proofs.Dockerfile.Spacing
import ImageTrust.Proofs.Dockerfile.Partition
import ImageTrust.Proofs.Dockerfile.Settled
import ImageTrust.Proofs.Dockerfile.Wrapping
import ImageTrust.Proofs.Dockerfile.Rereading
import ImageTrust.Proofs.Text.Returns
import ImageTrust.Proofs.Text.Words
import ImageTrust.Proofs.Certificate.Words
import ImageTrust.Proofs.EnvironmentFile.References
import ImageTrust.Proofs.Config.Variables
import ImageTrust.Proofs.Config.EmptyFile
import ImageTrust.Proofs.Disk.Reading
import ImageTrust.Proofs.Config.Isolation
import ImageTrust.Proofs.Text.Utf8
import ImageTrust.Proofs.CommandLine.Printing
import ImageTrust.Proofs.CommandLine.Arguments
import ImageTrust.Proofs.CommandLine.Running
import ImageTrust.Proofs.CommandLine.Reporting
import ImageTrust.Proofs.Disk.Messages
import ImageTrust.Proofs.Workspace.Placing
import ImageTrust.Proofs.Template.Concatenation
import ImageTrust.Proofs.Dockerfile.Scoping
import ImageTrust.Proofs.Config.Files
import ImageTrust.Proofs.Dockerfile.ExecForm
import ImageTrust.Proofs.CommandLine.Comparing
import ImageTrust.Proofs.CommandLine.MissingConfig
import ImageTrust.Proofs.EnvironmentFile.Shadowing
import ImageTrust.Proofs.Config.Precedence
import ImageTrust.Proofs.CommandLine.Views
import ImageTrust.Proofs.Config.Writing
import ImageTrust.Proofs.Config.Interference
import ImageTrust.Proofs.Dockerfile.LineEnds
import ImageTrust.Proofs.CommandLine.Choosing
import ImageTrust.Proofs.Dockerfile.FromWords
import ImageTrust.Proofs.Certificate.Copies
import ImageTrust.Proofs.Image.Detection
import ImageTrust.Proofs.Record.Projection
import ImageTrust.Proofs.Config.Comments
import ImageTrust.Proofs.Dockerfile.Occurrences

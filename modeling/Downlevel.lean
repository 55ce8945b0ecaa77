import Downlevel.Access
import Downlevel.Archive.Checksum
import Downlevel.Archive.CodePage
import Downlevel.Archive.Directory
import Downlevel.Archive.EndRecord
import Downlevel.Archive.Entry
import Downlevel.Archive.ExtraField
import Downlevel.Archive.Field
import Downlevel.Archive.Header
import Downlevel.Archive.Inflate
import Downlevel.Bootstrap
import Downlevel.Bytes
import Downlevel.Bytes.Reader
import Downlevel.CallSite
import Downlevel.ClassFile.Basic
import Downlevel.ClassFile.Reader
import Downlevel.ClassFile.Writer
import Downlevel.ClassPath
import Downlevel.Code.Assemble
import Downlevel.Code.Body
import Downlevel.Code.Decode
import Downlevel.Code.Frames
import Downlevel.Code.Instruction
import Downlevel.Code.Layout
import Downlevel.Code.Relocation
import Downlevel.Code.TypeAnnotations
import Downlevel.Constant
import Downlevel.Descriptor
import Downlevel.Diagnostic
import Downlevel.FileTree
import Downlevel.Journal
import Downlevel.Malformed
import Downlevel.Note
import Downlevel.Numbering
import Downlevel.Outcome
import Downlevel.Path
import Downlevel.Pool.Basic
import Downlevel.Pool.Intern
import Downlevel.Pool.Lookup
import Downlevel.Proofs.Alike
import Downlevel.Proofs.BigEndian
import Downlevel.Proofs.Bootstrap
import Downlevel.Proofs.CallSites
import Downlevel.Proofs.ClassFile.Names
import Downlevel.Proofs.ClassFile.RoundTrip
import Downlevel.Proofs.ClassFile.Truncation
import Downlevel.Proofs.ClassPath.Entries
import Downlevel.Proofs.ClassPath.History
import Downlevel.Proofs.ClassPath.Lookup
import Downlevel.Proofs.Code.Body
import Downlevel.Proofs.Code.Drift
import Downlevel.Proofs.Code.Faults
import Downlevel.Proofs.Code.Frames
import Downlevel.Proofs.Code.Layout
import Downlevel.Proofs.Code.Narrowing
import Downlevel.Proofs.Code.Pieces
import Downlevel.Proofs.Code.Places
import Downlevel.Proofs.Code.Reassembly
import Downlevel.Proofs.Code.Refusals
import Downlevel.Proofs.Code.Relocation
import Downlevel.Proofs.Code.Slots
import Downlevel.Proofs.Code.Tables
import Downlevel.Proofs.Code.Tiling
import Downlevel.Proofs.Code.TypeAnnotations
import Downlevel.Proofs.Code.Unedited
import Downlevel.Proofs.Codec
import Downlevel.Proofs.Composition
import Downlevel.Proofs.Coverage
import Downlevel.Proofs.Descriptor
import Downlevel.Proofs.Footprint
import Downlevel.Proofs.Foreign
import Downlevel.Proofs.Judging
import Downlevel.Proofs.LambdaNames
import Downlevel.Proofs.LambdaSites
import Downlevel.Proofs.Note
import Downlevel.Proofs.Outcome
import Downlevel.Proofs.PassingThrough
import Downlevel.Proofs.Pool.Dangling
import Downlevel.Proofs.Pool.Intern
import Downlevel.Proofs.Pool.Lookup
import Downlevel.Proofs.Pool.MethodRefs
import Downlevel.Proofs.Recording
import Downlevel.Proofs.Requests
import Downlevel.Proofs.Retention
import Downlevel.Proofs.Reworking
import Downlevel.Proofs.Rewriting
import Downlevel.Proofs.Sequencing
import Downlevel.Proofs.Session
import Downlevel.Proofs.StackEffects
import Downlevel.Proofs.Substitution
import Downlevel.Proofs.Text.Forms
import Downlevel.Proofs.Text.Modified
import Downlevel.Proofs.Tidying
import Downlevel.Proofs.Tracing
import Downlevel.Proofs.Version
import Downlevel.Retention
import Downlevel.Session
import Downlevel.Settings
import Downlevel.Substitution
import Downlevel.Surroundings
import Downlevel.Text.Blank
import Downlevel.Text.Lenient
import Downlevel.Text.Modified
import Downlevel.Version

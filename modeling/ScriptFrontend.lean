import ScriptFrontend.Tree.Search
import ScriptFrontend.Tree.Shape
import ScriptFrontend.Tree.Outline
import ScriptFrontend.Hoist.Lemmas
import ScriptFrontend.Hoist.Relocation
import ScriptFrontend.Diagnostic.Report
import ScriptFrontend.Json.Codec
import ScriptFrontend.Proofs.Line.Order
import ScriptFrontend.Proofs.Hoist.Derived
import ScriptFrontend.Proofs.Line.Dotted
import ScriptFrontend.Proofs.Hoist.Injected
import ScriptFrontend.Proofs.Diagnostic.Report
import ScriptFrontend.Proofs.Hoist.Location
import ScriptFrontend.Proofs.Hoist.Atomicity
import ScriptFrontend.Proofs.Hoist.Undo
import ScriptFrontend.Proofs.Hoist.Scope
import ScriptFrontend.Proofs.Diagnostic.Intent
import ScriptFrontend.Proofs.Text.Lines
import ScriptFrontend.Proofs.Diagnostic.Classification
import ScriptFrontend.Proofs.Diagnostic.Locality
import ScriptFrontend.Proofs.Json.RoundTrip
import ScriptFrontend.Proofs.Text.Offsets
import ScriptFrontend.Proofs.Hoist.Coherence
import ScriptFrontend.Proofs.Text.Template
import ScriptFrontend.Proofs.Diagnostic.Hint
import ScriptFrontend.Proofs.Diagnostic.Markers
import ScriptFrontend.Proofs.Tree.Preorder
import ScriptFrontend.Proofs.Tree.Wrappers
import ScriptFrontend.Proofs.Tree.Frames
import ScriptFrontend.Proofs.Tree.Outline
import ScriptFrontend.Proofs.Tree.Spine
import ScriptFrontend.Proofs.Line.Ancestry

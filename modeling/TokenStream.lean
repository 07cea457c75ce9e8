import TokenStream.Chain.Apply
import TokenStream.Chain.Lemmas
import TokenStream.Chain.Report
import TokenStream.Command.Snapshot
import TokenStream.Diagnostic.Inbox
import TokenStream.Main
import TokenStream.Proofs.Chain.Absorption
import TokenStream.Proofs.Chain.Erasure
import TokenStream.Proofs.Chain.Lifetime
import TokenStream.Proofs.Chain.Pairing
import TokenStream.Proofs.Chain.Relocation
import TokenStream.Proofs.Dump.Refusal
import TokenStream.Proofs.Log.Routing
import TokenStream.Proofs.Pattern.Alternatives
import TokenStream.Proofs.Pattern.Negation
import TokenStream.Proofs.Pattern.Spacing
import TokenStream.Proofs.Pattern.Literal
import TokenStream.Proofs.Dump.Markers
import TokenStream.Proofs.Dump.Provenance
import TokenStream.Proofs.Pattern.Sets
import TokenStream.Proofs.Dump.Location
import TokenStream.Proofs.Chain.Navigation
import TokenStream.Proofs.Chain.Classification
import TokenStream.Proofs.Chain.Occupancy

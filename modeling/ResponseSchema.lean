import ResponseSchema.ResponseFormat
import ResponseSchema.Settings.Reader
import ResponseSchema.Ty.ValueType
import ResponseSchema.Injection.SharedCache
import ResponseSchema.Proofs.Dialect.Idempotence
import ResponseSchema.Proofs.Dialect.Nullable
import ResponseSchema.Proofs.Host.Metadata
import ResponseSchema.Proofs.Injection.RuntimeView
import ResponseSchema.Proofs.Injection.Clashes
import ResponseSchema.Proofs.Injection.PerType
import ResponseSchema.Proofs.Injection.AttachedText
import ResponseSchema.Proofs.Injection.Convergence
import ResponseSchema.Proofs.Injection.Describing
import ResponseSchema.Proofs.Schema.Lossless
import ResponseSchema.Proofs.Injection.CloneFamilies
import ResponseSchema.Proofs.Dialect.Grammar
import ResponseSchema.Proofs.Ty.Faults
import ResponseSchema.Proofs.Ty.Foreign
import ResponseSchema.Proofs.Ty.Latest
import ResponseSchema.Proofs.Dialect.Pruning
import ResponseSchema.Proofs.Dialect.Wrapper
import ResponseSchema.Proofs.Injection.DerivedText
import ResponseSchema.Proofs.Dialect.Alternatives
import ResponseSchema.Proofs.Ty.ErrorMember
import ResponseSchema.Proofs.Ty.Nilable
import ResponseSchema.Proofs.Injection.Repetition
import ResponseSchema.Proofs.Ty.SelfDescribing
import ResponseSchema.Proofs.Ty.Reuse
import ResponseSchema.Proofs.Settings.Overlay
import ResponseSchema.Proofs.Ty.Notation

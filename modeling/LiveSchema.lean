import LiveSchema.Main
import LiveSchema.Usage
import LiveSchema.Proofs.Mutation.Rebase
import LiveSchema.Proofs.Atomicity
import LiveSchema.Proofs.References
import LiveSchema.Proofs.LegalNames
import LiveSchema.Proofs.Emission
import LiveSchema.Proofs.Reopening
import LiveSchema.Proofs.LegalFlags
import LiveSchema.Proofs.Spelling
import LiveSchema.Proofs.Ledger.Appending
import LiveSchema.Proofs.StoredValues
import LiveSchema.Proofs.UnrecordedLosses
import LiveSchema.Proofs.DeletedTypes
import LiveSchema.Proofs.FieldTypes
import LiveSchema.Proofs.RestoredReferences
import LiveSchema.Proofs.EnumeratorNumbers
import LiveSchema.Proofs.Conversion.Integers
import LiveSchema.Proofs.Conversion.Outcome
import LiveSchema.Proofs.Conversion.Truncation
import LiveSchema.Proofs.EndlessDefaults
import LiveSchema.Proofs.VisitedValues
import LiveSchema.Proofs.DefaultSizes
import LiveSchema.Proofs.ParsedReferences
import LiveSchema.Proofs.KeptValues
import LiveSchema.Proofs.Ancestors
import LiveSchema.Proofs.StableEmission
import LiveSchema.Proofs.IdleWalks
import LiveSchema.Proofs.Positions
import LiveSchema.Proofs.ArgumentPaths
import LiveSchema.Proofs.FittedObjects
import LiveSchema.Proofs.Neighbours
import LiveSchema.Proofs.LeastNames

import ZonePack.Main
import ZonePack.Predicate.Reading
import ZonePack.Proofs.Insanity
import ZonePack.Proofs.References
import ZonePack.Proofs.Pending
import ZonePack.Proofs.Protection
import ZonePack.Proofs.FailedRun
import ZonePack.Proofs.Writing
import ZonePack.Proofs.Spent
import ZonePack.Proofs.Regeneration
import ZonePack.Proofs.Collisions
import ZonePack.Proofs.Reordering
import ZonePack.Proofs.Lines
import ZonePack.Proofs.Json.Spelling
import ZonePack.Proofs.Json.Tokens
import ZonePack.Proofs.Json.Reading
import ZonePack.Proofs.Json.Whole
import ZonePack.Proofs.Document
import ZonePack.Proofs.Json.Pretty
import ZonePack.Proofs.Apart
import ZonePack.Proofs.Overwritten
import ZonePack.Proofs.Finishing
import ZonePack.Proofs.PredicateFile
import ZonePack.Proofs.Clearance
import ZonePack.Proofs.ScriptText
import ZonePack.Proofs.EffectText
import ZonePack.Proofs.EffectScripts
import ZonePack.Proofs.Json.Refusing
import ZonePack.Proofs.EffectType

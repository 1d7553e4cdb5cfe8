import Turnstile.Main
import Turnstile.Proofs.Names
import Turnstile.Proofs.Partition
import Turnstile.Proofs.TypeSubstitution
import Turnstile.Proofs.Unification
import Turnstile.Proofs.MostGeneral
import Turnstile.Proofs.Builds
import Turnstile.Proofs.TermTypes
import Turnstile.Proofs.Inference
import Turnstile.Proofs.Building
import Turnstile.Proofs.Reading
import Turnstile.Proofs.TypeSafety
import Turnstile.Proofs.ReadingSafety
import Turnstile.Proofs.EnvironmentSafety
import Turnstile.Proofs.PrincipalTypes
import Turnstile.Proofs.Semantics
import Turnstile.Proofs.SubstitutionMeaning
import Turnstile.Proofs.LogicTheory
import Turnstile.Proofs.PlanSoundness
import Turnstile.Proofs.RuleSoundness
import Turnstile.Proofs.Renaming
import Turnstile.Proofs.TermRenaming
import Turnstile.Proofs.Mirroring
import Turnstile.Proofs.ReadingMirroring
import Turnstile.Proofs.RuleMirroring
import Turnstile.Proofs.PlanMirroring
import Turnstile.Proofs.EnvironmentMirroring
import Turnstile.Proofs.Relocation
import Turnstile.Proofs.OpenGoals
import Turnstile.Proofs.OpenGoalMirroring
import Turnstile.Proofs.Numbering
import Turnstile.Proofs.Sessions
import Turnstile.Proofs.Refinement
import Turnstile.Proofs.Exchange
import Turnstile.Proofs.Lexing
import Turnstile.Proofs.Rereading
import Turnstile.Proofs.Spoken
import Turnstile.Proofs.Layouts
import Turnstile.Proofs.Writing
import Turnstile.Proofs.RoundTrip
import Turnstile.Proofs.WordUse
import Turnstile.Proofs.Traces
import Turnstile.Proofs.Forest
import Turnstile.Proofs.Classes
import Turnstile.Proofs.Annotations
import Turnstile.Proofs.SetRules
import Turnstile.Proofs.Steps
import Turnstile.Proofs.Caching
import Turnstile.Proofs.Reports
import Turnstile.Proofs.RuleOutcomes
import Turnstile.Proofs.BuiltinRules
import Turnstile.Proofs.EndlessReduction
import Turnstile.Proofs.Padding
import Turnstile.Proofs.Rechecking
import Turnstile.Proofs.Reducts
import Turnstile.Proofs.Schedules
import Turnstile.Proofs.Applications
import Turnstile.Proofs.Clashes
import Turnstile.Proofs.Groupings
import Turnstile.Proofs.NormalForms
import Turnstile.Proofs.Unfoldings
import Turnstile.Proofs.Connectives
import Turnstile.Proofs.Reversibility
import Turnstile.Proofs.Untouched
import Turnstile.Proofs.Equivalences
import Turnstile.Proofs.Expansions
import Turnstile.Proofs.Matching
import Turnstile.Proofs.StepTrees
import Turnstile.Proofs.PlanGrammar
import Turnstile.Proofs.Quoting
import Turnstile.Proofs.PlanLexing
import Turnstile.Proofs.PlanRoundTrip
import Turnstile.Proofs.BuiltinPlans
import Turnstile.Proofs.PrecedenceTable
import Turnstile.Proofs.Registering
import Turnstile.Proofs.TokenLayout
import Turnstile.Proofs.JointTypes
import Turnstile.Proofs.Limbs
import Turnstile.Proofs.WrittenTypes
import Turnstile.Proofs.KeyedValues

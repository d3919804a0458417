import TraitLang.CommandLine.Directory
import TraitLang.Decimal.Reader
import TraitLang.Host.Demo
import TraitLang.Main
import TraitLang.Tree.Build
import TraitLang.Proofs.Effects
import TraitLang.Proofs.StackBalance
import TraitLang.Proofs.DepthBounds
import TraitLang.Proofs.Masking
import TraitLang.Proofs.Coupling
import TraitLang.Proofs.CoupledCalls
import TraitLang.Proofs.Fuel
import TraitLang.Proofs.DepthLimit
import TraitLang.Proofs.Deferral
import TraitLang.Proofs.Currying
import TraitLang.Proofs.DictionaryPassing
import TraitLang.Proofs.Resolution
import TraitLang.Proofs.Materialization
import TraitLang.Proofs.Policies
import TraitLang.Proofs.Keeping
import TraitLang.Proofs.KeptCalls
import TraitLang.Proofs.TailCalls
import TraitLang.Proofs.ScopeHygiene
import TraitLang.Proofs.KnownEvidence
import TraitLang.Proofs.Tracing
import TraitLang.Proofs.TracedCalls
import TraitLang.Proofs.Precedence
import TraitLang.Proofs.RegistryFrame
import TraitLang.Proofs.Independence
import TraitLang.Proofs.Positions
import TraitLang.Proofs.PositionlessDispatch
import TraitLang.Proofs.PositionlessRuns
import TraitLang.Proofs.PositionlessCalls
import TraitLang.Proofs.PositionIndependence
import TraitLang.Proofs.JsonText
import TraitLang.Proofs.Decoding
import TraitLang.Proofs.TreeRoundTrip
import TraitLang.Proofs.SuperTraits
import TraitLang.Proofs.NestedDictionaries
import TraitLang.Proofs.LeftToDispatch
import TraitLang.Proofs.ArgumentDispatch
import TraitLang.Proofs.RepeatedResolution
import TraitLang.Proofs.ShowDispatch
import TraitLang.Proofs.ParameterBinding
import TraitLang.Proofs.ContextOnlyMethods
import TraitLang.Proofs.ReductionEnds
import TraitLang.Proofs.ScopeChains
import TraitLang.Proofs.Matching
import TraitLang.Proofs.ScopedCalls
import TraitLang.Proofs.NativeArity
import TraitLang.Proofs.CapturedEvidence
import TraitLang.Proofs.MethodCalls
import TraitLang.Proofs.ValueEquality
import TraitLang.Proofs.DispatchByType
import TraitLang.Proofs.IntegerArithmetic
import TraitLang.Proofs.Substitution
import TraitLang.Proofs.Redeclaration

import SandboxVm.Arena.Changes
import SandboxVm.Assembly
import SandboxVm.Files
import SandboxVm.Host.Script
import SandboxVm.Image.Draft
import SandboxVm.Main
import SandboxVm.Registry
import SandboxVm.Proofs.VerificationRules
import SandboxVm.Proofs.VerificationScan
import SandboxVm.Proofs.GuardedVerification
import SandboxVm.Proofs.DraftRoundTrip
import SandboxVm.Proofs.ControlFlow
import SandboxVm.Proofs.OperandIsolation
import SandboxVm.Proofs.TraceImage
import SandboxVm.Proofs.StackConfinement
import SandboxVm.Proofs.CallIndependence
import SandboxVm.Proofs.BlockCopy
import SandboxVm.Proofs.RegistryMap
import SandboxVm.Proofs.JumpMarks
import SandboxVm.Proofs.FailureLocation
import SandboxVm.Proofs.CodeGrammar
import SandboxVm.Proofs.NativeTranslation
import SandboxVm.Proofs.ArgumentPassing
import SandboxVm.Proofs.ImageGap
import SandboxVm.Proofs.LoadedProcedures
import SandboxVm.Proofs.MemoryLaw
import SandboxVm.Proofs.HostMemory
import SandboxVm.Proofs.ModuleListing

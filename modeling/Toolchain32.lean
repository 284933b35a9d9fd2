import Toolchain32.Main
import Toolchain32.Proofs.AcceptedLinks
import Toolchain32.Proofs.AssembledTexts
import Toolchain32.Proofs.CallReturns
import Toolchain32.Proofs.DecodedWords
import Toolchain32.Proofs.ExactAddresses
import Toolchain32.Proofs.FetchedWords
import Toolchain32.Proofs.FinalAddresses
import Toolchain32.Proofs.FusedPops
import Toolchain32.Proofs.LinkedUnion
import Toolchain32.Proofs.LosslessLines
import Toolchain32.Proofs.OperandWidths
import Toolchain32.Proofs.PlacementOrders
import Toolchain32.Proofs.PlacementSpellings
import Toolchain32.Proofs.PrintedListings
import Toolchain32.Proofs.RelocationRecords
import Toolchain32.Proofs.RenderedLines
import Toolchain32.Proofs.ReorderedSources
import Toolchain32.Proofs.SoundLayouts
import Toolchain32.Proofs.SourceTables
import Toolchain32.Proofs.SparseMemory
import Toolchain32.Proofs.SymbolHistories
import Toolchain32.Proofs.SymbolLookups
import Toolchain32.Proofs.TrappedSteps

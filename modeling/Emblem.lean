import Emblem.Log
import Emblem.Main
import Emblem.Files.FileSystem
import Emblem.Proofs.SceneIndex
import Emblem.Proofs.Legality
import Emblem.Proofs.DesignCheck
import Emblem.Proofs.TimelineRun
import Emblem.Proofs.ScriptRun
import Emblem.Proofs.Refusals
import Emblem.Proofs.ElementIds
import Emblem.Proofs.DocumentReferences
import Emblem.Proofs.ExactValue
import Emblem.Proofs.Playback
import Emblem.Proofs.ScriptLoop
import Emblem.Proofs.FlashSequence
import Emblem.Proofs.FlashHistory
import Emblem.Proofs.ScriptOutcome
import Emblem.Proofs.FileContents
import Emblem.Proofs.ClockValues
import Emblem.Proofs.WrittenDrawings
import Emblem.Proofs.Independence
import Emblem.Proofs.Rebinding
import Emblem.Proofs.AttributeValues
import Emblem.Proofs.DrawingLines
import Emblem.Proofs.FloatRounding
import Emblem.Proofs.FloatArithmetic
import Emblem.Proofs.FloatOrder
import Emblem.Proofs.CoordinateRange
import Emblem.Proofs.RingEdges
import Emblem.Proofs.ShortestDecimal
import Emblem.Proofs.PrintedNumbers
import Emblem.Proofs.Seams
import Emblem.Proofs.ReaderRuns
import Emblem.Proofs.ReaderStability
import Emblem.Proofs.StableReaders
import Emblem.Proofs.ObjectTexts
import Emblem.Proofs.Overrides
import Emblem.Proofs.FloatScaling
import Emblem.Proofs.NumeralTexts
import Emblem.Proofs.SpelledFloats
import Emblem.Proofs.Rereading
import Emblem.Proofs.WrittenValues
import Emblem.Proofs.RoundTrip
import Emblem.Proofs.ColorGrammar
import Emblem.Proofs.CommandRuns
import Emblem.Proofs.LoopConservation
import Emblem.Proofs.LoopPolicies
import Emblem.Proofs.UntouchedFiles
import Emblem.Proofs.DistinctNumbers
import Emblem.Proofs.LosslessDrawings
import Emblem.Proofs.SceneGrowth
import Emblem.Proofs.BulkAdditions
import Emblem.Proofs.LogoScene
import Emblem.Proofs.FloatSpans
import Emblem.Proofs.CycleLength
import Emblem.Proofs.ColorSpellings
import Emblem.Proofs.VocabularyTexts
import Emblem.Proofs.PictureSize
import Emblem.Proofs.ConfinedWrites
import Emblem.Proofs.PairRules

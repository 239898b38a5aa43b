import Gcode.Main
import Gcode.Session
import Gcode.Protocol.Standard
import Gcode.Reference.Listing
import Gcode.Proofs.RenderedLine
import Gcode.Proofs.ModalHistory
import Gcode.Proofs.WrittenMessages
import Gcode.Proofs.LatestTexts
import Gcode.Proofs.NeutralEdit
import Gcode.Proofs.NumberedLines
import Gcode.Proofs.OutlineLines
import Gcode.Proofs.Finds
import Gcode.Proofs.JoinedPrograms
import Gcode.Proofs.TimeDependence
import Gcode.Proofs.HoverColumns
import Gcode.Proofs.CodeSpellings
import Gcode.Proofs.OutlineKinds
import Gcode.Proofs.CanonicalCode
import Gcode.Proofs.LineScans
import Gcode.Proofs.ToolChanges
import Gcode.Proofs.WordPrograms
import Gcode.Proofs.LineEndings
import Gcode.Proofs.ModelineLines
import Gcode.Proofs.Capitals
import Gcode.Proofs.CapitalPrograms
import Gcode.Proofs.ByteOrder
import Gcode.Proofs.PathWalk
import Gcode.Proofs.Declarations
import Gcode.Proofs.LoadOrder
import Gcode.Proofs.CanonicalName
import Gcode.Proofs.RegistryHistory
import Gcode.Proofs.FreeMotion
import Gcode.Proofs.CodesInLine
import Gcode.Proofs.LabelText
import Gcode.Proofs.ReportLines
import Gcode.Proofs.CommentScan
import Gcode.Proofs.WordGrammar
import Gcode.Proofs.WordsAndGaps
import Gcode.Proofs.DocumentedCodes
import Gcode.Proofs.Numerals
import Gcode.Proofs.SpindleLabel
import Gcode.Proofs.LinePieces
import Gcode.Proofs.ModelineWindow
import Gcode.Proofs.UnitCodes
import Gcode.Proofs.CodeNames
import Gcode.Proofs.LongestCodes
import Gcode.Proofs.WordKeys

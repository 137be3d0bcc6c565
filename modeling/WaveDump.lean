import WaveDump.CommandLine.Run
import WaveDump.Main
import WaveDump.Session
import WaveDump.Proofs.Frames
import WaveDump.Proofs.StreamConversion
import WaveDump.Proofs.Reading
import WaveDump.Proofs.VectorLines
import WaveDump.Proofs.Body
import WaveDump.Proofs.Replay
import WaveDump.Proofs.Arrangement
import WaveDump.Proofs.Spans
import WaveDump.Proofs.ConversionEnds
import WaveDump.Proofs.Invariant
import WaveDump.Proofs.Acceptance
import WaveDump.Proofs.Unregistered
import WaveDump.Proofs.Settings
import WaveDump.Proofs.StoredDumps
import WaveDump.Proofs.Routes
import WaveDump.Proofs.ChangedLines
import WaveDump.Proofs.Resizing
import WaveDump.Proofs.BitNames
import WaveDump.Proofs.RateTexts
import WaveDump.Proofs.HeaderReading
import WaveDump.Proofs.FileConversion
import WaveDump.Proofs.ProbesCommand
import WaveDump.Proofs.TouchedFiles
import WaveDump.Proofs.KeptCaptures
import WaveDump.Proofs.SpacedLines
import WaveDump.Proofs.ReadBuffer
import WaveDump.Proofs.Packing

import StoredProgram.Assembly.Listing
import StoredProgram.CommandLine.Execution
import StoredProgram.Machine.Dump
import StoredProgram.Machine.Run
import StoredProgram.Main
import StoredProgram.Proofs.Assembly.Arrangement
import StoredProgram.Proofs.Assembly.Extension
import StoredProgram.Proofs.Assembly.Fault
import StoredProgram.Proofs.Assembly.FirstFault
import StoredProgram.Proofs.Assembly.JumpTarget
import StoredProgram.Proofs.Assembly.Number
import StoredProgram.Proofs.Assembly.Relocation
import StoredProgram.Proofs.Assembly.Renaming
import StoredProgram.Proofs.Assembly.Rewriting
import StoredProgram.Proofs.Assembly.Spacing
import StoredProgram.Proofs.Assembly.Tables
import StoredProgram.Proofs.CommandLine.Words
import StoredProgram.Proofs.Machine.Change
import StoredProgram.Proofs.Machine.ControlFlow
import StoredProgram.Proofs.Machine.Fault
import StoredProgram.Proofs.Machine.History
import StoredProgram.Proofs.Machine.Limit
import StoredProgram.Proofs.Machine.Multiplication
import StoredProgram.Proofs.Machine.Padding
import StoredProgram.Proofs.Machine.ReadBack
import StoredProgram.Proofs.Machine.Undecodable
import StoredProgram.Proofs.SymbolTable.Insertion
import StoredProgram.WordsFile
import StoredProgram.Proofs.Machine.Shift
import StoredProgram.Proofs.Machine.Termination
import StoredProgram.Proofs.CommandLine.Variables
import StoredProgram.Proofs.WordsFile.Reading
import StoredProgram.Proofs.Assembly.ExcludedFault
import StoredProgram.Proofs.Assembly.Listing
import StoredProgram.Proofs.Machine.Dump

import BeginningStudent.Main
import BeginningStudent.Proofs.Batches
import BeginningStudent.Proofs.BrokenLines
import BeginningStudent.Proofs.ClosedPrograms
import BeginningStudent.Proofs.Collapsed
import BeginningStudent.Proofs.Comparison
import BeginningStudent.Proofs.Conditionals
import BeginningStudent.Proofs.Contagion
import BeginningStudent.Proofs.DepthLimit
import BeginningStudent.Proofs.EnvironmentTrees
import BeginningStudent.Proofs.Equality
import BeginningStudent.Proofs.Extrema
import BeginningStudent.Proofs.FunctionForms
import BeginningStudent.Proofs.GaussianRationals
import BeginningStudent.Proofs.Generations
import BeginningStudent.Proofs.InRange
import BeginningStudent.Proofs.IntegerDivision
import BeginningStudent.Proofs.Literals
import BeginningStudent.Proofs.ProperLists
import BeginningStudent.Proofs.Pruning
import BeginningStudent.Proofs.QuotedNames
import BeginningStudent.Proofs.ReadBack
import BeginningStudent.Proofs.Readable
import BeginningStudent.Proofs.Recovery
import BeginningStudent.Proofs.Renaming
import BeginningStudent.Proofs.Roots
import BeginningStudent.Proofs.RoundTrip
import BeginningStudent.Proofs.Rounding
import BeginningStudent.Proofs.Signs
import BeginningStudent.Proofs.Slices
import BeginningStudent.Proofs.Termination
import BeginningStudent.Proofs.Unfinished
import BeginningStudent.Proofs.WriteOnce
import BeginningStudent.Proofs.ZeroDivision

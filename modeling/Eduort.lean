import Eduort.Ir.AnyReady
import Eduort.Ir.Canonical
import Eduort.Ir.Diagnosis
import Eduort.Ir.Layers
import Eduort.Ir.QueueLoop
import Eduort.Ir.Renaming
import Eduort.Ir.SameStructure
import Eduort.Ir.SingleAssignment
import Eduort.Ir.Values
import Eduort.Onnx.AttributeKinds
import Eduort.Onnx.FileDefects
import Eduort.Onnx.LoaderRange
import Eduort.Onnx.LoaderShapes
import Eduort.Onnx.Pipeline
import Eduort.Onnx.TensorPayload
import Eduort.Runtime.Loading
import Eduort.Runtime.Refinement

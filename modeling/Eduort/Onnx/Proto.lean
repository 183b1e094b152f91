/-!
# ONNX messages

The messages of `third_party/onnx/onnx.proto` as their generated accessors present them. A
field that the loader tests with a `has_` accessor is an `Option`; any other singular field
holds the value its accessor returns, which is the default when it is absent. Repeated
fields are lists. `float` values are their 32-bit patterns, `bytes` values lists of bytes.
Messages the loader never looks into (graphs, sparse tensors and type protos in attributes)
stay undecoded; fields that nothing reads are left out.
-/

namespace Eduort.Onnx

/-- `bytes` fields and undecoded messages. -/
abbrev Bytes := List UInt8

/-- Serialized tensor; `third_party/onnx/onnx.proto:483`. -/
structure TensorProto where
  dims : List Int64 := []
  dataType : Int32 := 0
  floatData : List UInt32 := []
  int64Data : List Int64 := []
  name : String := ""
  rawData : Bytes := []
  deriving DecidableEq

/-- Discriminator of an attribute; `third_party/onnx/onnx.proto:122`. The enum is closed, so
an unknown number reads as `UNDEFINED`. -/
inductive AttributeType where
  | UNDEFINED
  | FLOAT
  | INT
  | STRING
  | TENSOR
  | GRAPH
  | FLOATS
  | INTS
  | STRINGS
  | TENSORS
  | GRAPHS
  | SPARSE_TENSOR
  | SPARSE_TENSORS
  | TYPE_PROTO
  | TYPE_PROTOS
  deriving DecidableEq, Repr

/-- The number of an attribute type; the constructors stand in this order. -/
def AttributeType.number : AttributeType → Nat
  | .UNDEFINED => 0
  | .FLOAT => 1
  | .INT => 2
  | .STRING => 3
  | .TENSOR => 4
  | .GRAPH => 5
  | .FLOATS => 6
  | .INTS => 7
  | .STRINGS => 8
  | .TENSORS => 9
  | .GRAPHS => 10
  | .SPARSE_TENSOR => 11
  | .SPARSE_TENSORS => 12
  | .TYPE_PROTO => 13
  | .TYPE_PROTOS => 14

/-- Named attribute of a node; `third_party/onnx/onnx.proto:118`. -/
structure AttributeProto where
  name : String := ""
  type : AttributeType := .UNDEFINED
  f : Option UInt32 := none
  i : Option Int64 := none
  s : Option Bytes := none
  t : Option TensorProto := none
  g : Option Bytes := none
  sparseTensor : Option Bytes := none
  tp : Option Bytes := none
  floats : List UInt32 := []
  ints : List Int64 := []
  strings : List Bytes := []
  tensors : List TensorProto := []
  graphs : List Bytes := []
  sparseTensors : List Bytes := []
  typeProtos : List Bytes := []
  deriving DecidableEq

/-- A dimension holds at most one of its two alternatives;
`third_party/onnx/onnx.proto:662`. -/
inductive Dimension where
  | unset
  | dimValue (value : Int64)
  | dimParam (param : String)
  deriving DecidableEq

/-- Shape of a value; `third_party/onnx/onnx.proto:661`. -/
structure TensorShapeProto where
  dim : List Dimension := []
  deriving DecidableEq

/-- Tensor case of a type; `third_party/onnx/onnx.proto:682`. -/
structure TensorTypeProto where
  shape : Option TensorShapeProto := none
  deriving DecidableEq

/-- Type of a value; `third_party/onnx/onnx.proto:680`. Without a tensor type the message is
empty or holds one of the other alternatives. -/
structure TypeProto where
  tensorType : Option TensorTypeProto := none
  deriving DecidableEq

/-- Named value; `third_party/onnx/onnx.proto:183`. -/
structure ValueInfoProto where
  name : String := ""
  type : Option TypeProto := none
  deriving DecidableEq

/-- Operator invocation; `third_party/onnx/onnx.proto:200`. -/
structure NodeProto where
  input : List String := []
  output : List String := []
  name : String := ""
  opType : String := ""
  domain : String := ""
  attributes : List AttributeProto := []
  deriving DecidableEq

/-- Graph of a model; `third_party/onnx/onnx.proto:443`. -/
structure GraphProto where
  node : List NodeProto := []
  name : String := ""
  initializer : List TensorProto := []
  input : List ValueInfoProto := []
  output : List ValueInfoProto := []
  valueInfo : List ValueInfoProto := []
  deriving DecidableEq

/-- Imported operator set; `third_party/onnx/onnx.proto:759`. -/
structure OperatorSetIdProto where
  domain : String := ""
  version : Int64 := 0
  deriving DecidableEq

/-- Root message of a model file; `third_party/onnx/onnx.proto:344`. -/
structure ModelProto where
  irVersion : Int64 := 0
  opsetImport : List OperatorSetIdProto := []
  graph : Option GraphProto := none
  deriving DecidableEq

end Eduort.Onnx

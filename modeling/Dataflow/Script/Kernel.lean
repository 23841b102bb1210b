import Dataflow.Script.Lower

/-!
# Kernels

The program of a graph for a graphics processor: one kernel for each map, and comments for loading,
storing and all that has no kernel.
-/

namespace Dataflow

inductive KernelDialect where
  | cuda
  | triton
deriving DecidableEq

namespace KernelDialect

def name : KernelDialect → Text
  | cuda => "cuda"
  | triton => "triton"

def all : List KernelDialect := [cuda, triton]

def lookup? (n : Text) : Option KernelDialect := all.find? (·.name = n.lowercase)

def tool : KernelDialect → Text
  | cuda => "nvcc"
  | triton => "python3"

def prelude : KernelDialect → Text
  | cuda => "#include <cuda_runtime.h>\n"
  | triton => "import triton\nimport triton.language as tl\n"

def comment (d : KernelDialect) (t : Text) : Text :=
  match d with
  | cuda => "// " ++ t
  | triton => "# " ++ t

def load (d : KernelDialect) (uri : Text) : Text :=
  d.comment ("Load " ++ uri ++ (match d with
    | cuda => " to device memory"
    | triton => " to GPU memory"))

def store (d : KernelDialect) (uri : Text) : Text :=
  d.comment ("Copy result to host and save to " ++ uri)

def kernel (d : KernelDialect) (name expr : Text) : Text :=
  match d with
  | cuda => Text.concat (
    ["__global__ void ", name,
     "(const double* x_ptr, double* output_ptr, int n_elements) \x7b\n",
     "    int i = blockIdx.x * blockDim.x + threadIdx.x;\n",
     "    if (i < n_elements) \x7b\n",
     "        double x = x_ptr[i];\n",
     "        output_ptr[i] = ", expr, ";\n",
     "    \x7d\n",
     "\x7d\n"])
  | triton => Text.concat (
    ["@triton.jit\n",
     "def ", name, "(x_ptr, output_ptr, n_elements, BLOCK_SIZE: tl.constexpr):\n",
     "    pid = tl.program_id(axis=0)\n",
     "    block_start = pid * BLOCK_SIZE\n",
     "    offsets = block_start + tl.arange(0, BLOCK_SIZE)\n",
     "    mask = offsets < n_elements\n",
     "    x = tl.load(x_ptr + offsets, mask=mask)\n",
     "    output = ", expr, "\n",
     "    tl.store(output_ptr + offsets, output, mask=mask)\n"])

end KernelDialect

namespace Kernel

/-- One character of a function name as part of an identifier: letters, digits and underscores
stay. -/
def nameText (first : Bool) : Piece → Text
  | .char c =>
    if c = '_' || Text.isLetter c then Text.ofChar c
    else if Text.isDigit c then (if first then "k_" else "") ++ Text.ofChar c
    else "_"
  | .stray _ => "_"

def nameOf (function : Text) : Text :=
  if function.isEmpty || function.contains "<lambda>" then "lambda_kernel"
  else Text.concat (function.pieces.zipIdx.map fun (p, i) => nameText (i = 0) p)

def backendName (d : KernelDialect) : Text := "kernel:" ++ d.name

def preludeOwner (d : KernelDialect) : Text := backendName d ++ ":prelude"

def ofNode (d : KernelDialect) (n : Node) (inputs : List Program) : Outcome Program := do
  let p := Program.merge inputs
  match n.op with
  | .source =>
    return p.append n.id (d.load (← n.text "uri" "unknown")) (Script.variableOf n)
  | .map =>
    let name := nameOf (← n.text "fn_name" "")
    let e ← n.expr
    let kernel := d.kernel name (if e.isEmpty then "x" else e)
    return (p.append (preludeOwner d) d.prelude p.result).append n.id kernel name
  | .sink => return p.append n.id (d.store (← n.text "uri" "stdout")) p.result
  | op => return p.append n.id (d.comment ("unsupported op for GPU: " ++ op.name)) p.result

def backend (d : KernelDialect) : Backend Program where
  name := backendName d
  lower n inputs := Effect.ofOutcome (ofNode d n inputs)

end Kernel

end Dataflow

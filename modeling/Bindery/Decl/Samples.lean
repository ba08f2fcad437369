import Bindery.Decl.Build

/-!
# Sample graphs

Three small translation units, from one abstract class to a library with classes, operators and
an enumeration.

## Main definitions

* `Samples.shape`, `Samples.getValue`, `Samples.geometry` — the graphs.
-/

namespace Bindery.Samples

/-- The graph is built by steps that each know the graph so far. -/
abbrev Builder := StateM DeclGraph

/-- Appends a declaration and tells its number. -/
def declare (parent : DeclId) (name : String) (kind : DeclKind) : Builder DeclId :=
  modifyGet fun g => g.add parent name kind

/-- Changes a declaration. -/
def adjust (id : DeclId) (f : Declaration → Declaration) : Builder Unit :=
  modify fun g => g.modify id f

/-- Says where a declaration stands. -/
def locate (id : DeclId) (file : String) (line : Nat) : Builder Unit :=
  adjust id fun d => { d with location := ⟨file, line⟩ }

/-- The graph that some steps build. -/
def build (steps : Builder Unit) : DeclGraph := (steps.run .initial).2

/-- The type `double`. -/
def double : CppType := .fundamental .double

/-- An abstract class with one function. -/
def shape : DeclGraph := build do
  let shape ← declare DeclGraph.root "Shape" (.cls {})
  locate shape "shape.hpp" 1
  let _ ← declare shape "area" (.callable
    { kind := .memberFunction, returnType := some double, virtuality := .pure, isConst := true })

/-- A function that answers through a reference parameter. -/
def getValue : DeclGraph := build do
  let f ← declare DeclGraph.root "getValue" (.callable
    { kind := .freeFunction, returnType := some .void,
      args := [{ name := "v", type := .reference (.fundamental .int) }] })
  locate f "value.hpp" 1
  adjust f fun d => { d with config := { d.config with transformers := [⟨.output, 1⟩] } }

/-- Points, shapes and circles, with a class of the standard library beside them. -/
def geometry : DeclGraph := build do
  let std ← declare DeclGraph.root "std" (.ns [])
  let doubles ← declare std "vector<double>" (.cls {})
  let geo ← declare DeclGraph.root "geo" (.ns [])
  let color ← declare geo "Color" (.enum [⟨"red", 0⟩, ⟨"green", 1⟩])
  locate color "geo/color.hpp" 1
  let point ← declare geo "Point" (.cls {})
  locate point "geo/point.hpp" 1
  let _ ← declare point "Point" (.callable
    { kind := .constructor false false,
      args := [{ name := "x", type := double },
               { name := "y", type := double, default? := some "0" }] })
  let _ ← declare point "x" (.variable { type := double })
  let _ ← declare point "y" (.variable { type := double })
  let pointRef : CppType := .reference (.const (.declared point))
  let plus ← declare geo "operator+" (.callable
    { kind := .freeOperator "+", returnType := some (.declared point),
      args := [{ name := "a", type := pointRef }, { name := "b", type := pointRef }] })
  locate plus "geo/point.hpp" 9
  let shape ← declare geo "Shape" (.cls {})
  locate shape "geo/shape.hpp" 1
  let _ ← declare shape "area" (.callable
    { kind := .memberFunction, returnType := some double, virtuality := .pure, isConst := true })
  let _ ← declare shape "color" (.callable
    { kind := .memberFunction, returnType := some (.declared color),
      virtuality := .overridable, isConst := true })
  let invalidate ← declare shape "invalidate" (.callable
    { kind := .memberFunction, returnType := some .void })
  adjust invalidate fun d => { d with access := .prot }
  let circle ← declare geo "Circle" (.cls {})
  locate circle "geo/shape.hpp" 12
  modify fun g => g.addBase circle shape .pub
  let _ ← declare circle "Circle" (.callable
    { kind := .constructor false false,
      args := [{ name := "center", type := pointRef },
               { name := "radius", type := double, default? := some "1" }] })
  let _ ← declare circle "area" (.callable
    { kind := .memberFunction, returnType := some double, virtuality := .overridable,
      isConst := true })
  let total ← declare geo "total" (.callable
    { kind := .freeFunction, returnType := some double,
      args := [{ name := "values", type := .reference (.const (.declared doubles)) }] })
  locate total "geo/shape.hpp" 20

end Bindery.Samples

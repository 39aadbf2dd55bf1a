import Mathlib.Data.List.Induction

/-!
# Lexical paths

A path is the list of its components as written, from the root. `normal` removes the empty and `.`
components and lets every `..` take back the component before it; it looks at no file system. Joining
with an absolute name gives that name.
-/

namespace LexicalPath

abbrev Path := List String

def split (name : String) : Path := (name.toList.splitOn '/').map String.ofList

def isAbsolute (name : String) : Bool := name.toList.head? = some '/'

def join (base : Path) (name : String) : Path := if isAbsolute name then split name else base ++ split name

/-- One component, after the normal path `stack`. -/
def step (stack : Path) (component : String) : Path :=
  if component = "" ∨ component = "." then stack
  else if component = ".." then stack.dropLast
  else stack ++ [component]

def normal (p : Path) : Path := p.foldl step []

def Plain (component : String) : Prop := component ≠ "" ∧ component ≠ "." ∧ component ≠ ".."

instance (component : String) : Decidable (Plain component) := inferInstanceAs (Decidable (_ ∧ _))

/-- `p` lies in the directory `dir`, or is it. -/
def Inside (dir p : Path) : Prop := normal dir <+: normal p

instance (dir p : Path) : Decidable (Inside dir p) := inferInstanceAs (Decidable (_ <+: _))

theorem step_plain {stack : Path} {component : String} (h : Plain component) :
    step stack component = stack ++ [component] := by
  unfold step
  rw [if_neg (not_or.2 ⟨h.1, h.2.1⟩), if_neg h.2.2]

theorem normal_concat {p : Path} {component : String} (h : Plain component) :
    normal (p ++ [component]) = normal p ++ [component] := by
  unfold normal
  rw [List.foldl_append]
  exact step_plain h

theorem Inside.refl (p : Path) : Inside p p := List.prefix_refl _

/-- A name without `..` stays in the directory. -/
theorem inside_append {dir rest : Path} (h : ".." ∉ rest) : Inside dir (dir ++ rest) := by
  unfold Inside normal
  rw [List.foldl_append]
  induction rest using List.reverseRecOn with
  | nil => exact List.prefix_refl _
  | append_singleton rest component ih =>
    rw [List.foldl_append]
    refine (ih fun hmem => h (List.mem_append_left _ hmem)).trans ?_
    have hne : component ≠ ".." := fun heq => h (by simp [heq])
    simp only [List.foldl_cons, List.foldl_nil, step, if_neg hne]
    split
    · exact List.prefix_refl _
    · exact List.prefix_append _ _

theorem plain_append {a b : String} (h : 2 < a.length ∨ 2 < b.length) : Plain (a ++ b) := by
  have hlength : 2 < (a ++ b).length := by
    rw [String.length_append]
    omega
  refine ⟨?_, ?_, ?_⟩ <;> intro heq <;> rw [heq] at hlength <;> exact absurd hlength (by decide)

end LexicalPath

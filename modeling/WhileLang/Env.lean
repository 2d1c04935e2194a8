import WhileLang.Tree.Basic

/-!
# Environments

An environment binds names to values. It is a list of bindings in strictly increasing order of the
names, so each name occurs once, equal bindings make equal environments, and every listing of the
names is already sorted. `insert` returns a new environment; the old one stays as it was.
-/

namespace WhileLang

namespace Bindings

/-- Bind a name in a sorted list, replacing an older binding. -/
def insert (name : String) (v : Value) : List (String × Value) → List (String × Value)
  | [] => [(name, v)]
  | (k, w) :: rest =>
    if name < k then (name, v) :: (k, w) :: rest
    else if name = k then (name, v) :: rest
    else (k, w) :: insert name v rest

/-- Strictly increasing names. -/
def Sorted (l : List (String × Value)) : Prop := l.Pairwise (fun a b => a.1 < b.1)

theorem mem_insert {name : String} {v : Value} {l : List (String × Value)} {b : String × Value}
    (h : b ∈ insert name v l) : b = (name, v) ∨ b ∈ l := by
  induction l with
  | nil => simpa [insert] using h
  | cons p rest ih =>
    obtain ⟨k, w⟩ := p
    simp only [insert] at h
    split at h
    · simpa using h
    · split at h
      · rcases List.mem_cons.1 h with h | h
        · exact .inl h
        · exact .inr (List.mem_cons_of_mem _ h)
      · rcases List.mem_cons.1 h with h | h
        · exact .inr (h ▸ List.mem_cons_self)
        · exact (ih h).imp_right (List.mem_cons_of_mem _)

/-- Binding keeps the order. -/
theorem Sorted.insert {l : List (String × Value)} (h : Sorted l) (name : String) (v : Value) :
    Sorted (Bindings.insert name v l) := by
  induction l with
  | nil => simp [Sorted, Bindings.insert]
  | cons p rest ih =>
    obtain ⟨k, w⟩ := p
    obtain ⟨hk, hr⟩ := List.pairwise_cons.1 h
    simp only [Bindings.insert]
    split
    · next hlt =>
      refine List.pairwise_cons.2 ⟨fun b hb => ?_, h⟩
      rcases List.mem_cons.1 hb with rfl | hb
      · exact hlt
      · exact String.lt_trans hlt (hk b hb)
    · split
      · next _ heq => exact List.pairwise_cons.2 ⟨fun b hb => heq ▸ hk b hb, hr⟩
      · next hlt hne =>
        refine List.pairwise_cons.2 ⟨fun b hb => ?_, ih hr⟩
        rcases mem_insert hb with rfl | hb
        · rcases Decidable.em (k < name) with hkn | hkn
          · exact hkn
          · exact absurd (String.le_antisymm (String.not_lt.1 hkn) (String.not_lt.1 hlt)) hne
        · exact hk b hb

end Bindings

/-- Names bound to values, in strictly increasing order of the names. -/
structure Env where
  bindings : List (String × Value)
  sorted : Bindings.Sorted bindings

namespace Env

/-- The environment that binds nothing. -/
def empty : Env := ⟨[], List.Pairwise.nil⟩

instance : Inhabited Env := ⟨empty⟩

@[ext] theorem ext {a b : Env} (h : a.bindings = b.bindings) : a = b := by
  cases a; cases b; cases h; rfl

instance : DecidableEq Env := fun a b =>
  if h : a.bindings = b.bindings then isTrue (ext h) else isFalse fun e => h (e ▸ rfl)

/-- The environment with one more binding; an older binding of the name is replaced. -/
def insert (e : Env) (name : String) (v : Value) : Env :=
  ⟨Bindings.insert name v e.bindings, e.sorted.insert name v⟩

/-- Bindings taken in order, so that the last binding of a name counts. -/
def ofList (l : List (String × Value)) : Env := l.foldl (fun e b => e.insert b.1 b.2) empty

/-- The value bound to a name. -/
def get? (e : Env) (name : String) : Option Value := e.bindings.lookup name

/-- Whether a name is bound. -/
def contains (e : Env) (name : String) : Bool := (e.get? name).isSome

/-- How many names are bound. -/
def size (e : Env) : Nat := e.bindings.length

/-- The bound names in increasing order. -/
def names (e : Env) : List String := e.bindings.map (·.1)

/-- The same names bound to the same values; positions do not count. -/
def same (a b : Env) : Bool :=
  a.size == b.size && a.bindings.all fun p =>
    match b.get? p.1 with
    | some w => p.2.same w
    | none => false

/-- `{x: 1, y: true}`. -/
def text (e : Env) : String :=
  "\x7b" ++ String.intercalate ", " (e.bindings.map fun p => p.1 ++ ": " ++ p.2.text) ++ "\x7d"

end Env

end WhileLang

import NodeShader.Proofs.Node.Builtin
import NodeShader.Proofs.Number.Exact

/-!
# Fields written and read back

A kind saves its values as doubles under one name. What comes back from paper may say the same numbers
in another way: as singles or doubles, or as integers where they are whole, and a list of doubles as a
list of anything (`Record.Restates`). A new kind of the archetype that loads such a record takes over
the values that were saved, up to payloads of what is not a number (`Kind.load_restated`). No record
changes how many values stand in the place of inputs, so further ones are dropped and missing ones
stay what they were (`Kind.takeOver`). Nothing is lost of as many values as the archetype has, and
something is of more or fewer (`Kind.plain_save?_takeOver_iff`).
-/

namespace NodeShader

open Number (Single Double)

/-! ## Ways to say a number -/

/-- The dynamic value is accepted as a number and is this one. A negative zero is no integer. -/
inductive Datum.IsNumber : Datum → Double → Prop
  | double {x y : Double} (h : y.plain = x.plain) : IsNumber (.double y) x
  | single {x : Double} {y : Single} (h : y.toDouble.plain = x.plain) : IsNumber (.single y) x
  | int {x : Double} {kind : IntKind} {n : Int} (hkind : kind ≠ .uint) (h : x.IsInt n) :
      IsNumber (.int kind n) x

/-- A single that was widened is read back, however it is said. -/
theorem Datum.IsNumber.toSingle? {d : Datum} {x : Single} (h : d.IsNumber x.toDouble) :
    ∃ y, d.toSingle? = some y ∧ y.plain = x.plain := by
  cases h with
  | double h => exact ⟨_, rfl, Double.plain_toSingle h⟩
  | single h => exact ⟨_, rfl, Single.plain_toDouble_eq_iff.mp h⟩
  | @int _ kind n hkind h =>
      refine ⟨.ofInt n, ?_, by rw [Single.ofInt_eq h]⟩
      cases kind <;> first | rfl | exact absurd rfl hkind

/-- The first value says what the second says. -/
inductive Datum.Restates : Datum → Datum → Prop
  | same (d : Datum) : Restates d d
  | number {d : Datum} {x : Double} (h : d.IsNumber x) : Restates d (.double x)
  | numbers {items : List Datum} {xs : List Double} (h : List.Forall₂ Datum.IsNumber items xs) :
      Restates (.list items) (.doubles xs)

namespace Record

/-- The first record has the fields of the second and says the same in them. -/
def Restates (r r' : Record) : Prop :=
  List.Forall₂ (fun x y => x.1 = y.1 ∧ x.2.Restates y.2) r.entries r'.entries

theorem Restates.refl (r : Record) : r.Restates r :=
  List.forall₂_same.mpr fun _ _ => ⟨rfl, .same _⟩

theorem Restates.get? {r : Record} {key : String} {d : Datum} (h : r.Restates (empty.put key d)) :
    ∃ d', r.get? key = some d' ∧ d'.Restates d := by
  obtain ⟨entries⟩ := r
  obtain ⟨⟨k, d'⟩, rest, ⟨hkey, hd⟩, hrest, rfl⟩ := List.forall₂_cons_right_iff.mp h
  cases hkey
  exact ⟨d', by simp [Record.get?], hd⟩

theorem Restates.number {r : Record} {key : String} {x : Single}
    (h : r.Restates (empty.putNumber key x)) :
    ∃ y, r.number key = .ok (some y) ∧ y.plain = x.plain := by
  obtain ⟨d, hget, hd⟩ := h.get?
  have hnumber : d.IsNumber x.toDouble := by
    cases hd with
    | same => exact .double rfl
    | number h => exact h
  obtain ⟨y, hy, hplain⟩ := hnumber.toSingle?
  exact ⟨y, by simp only [Record.number, hget, hy], hplain⟩

theorem numbersFrom_eq_ok (key : String) {items : List Datum} {xs : List Single} (i : Nat)
    (h : List.Forall₂ Datum.IsNumber items (xs.map Single.toDouble)) :
    ∃ ys, numbersFrom key i items = .ok ys ∧ ys.map Single.plain = xs.map Single.plain := by
  induction xs generalizing items i with
  | nil =>
      cases h
      exact ⟨[], rfl, rfl⟩
  | cons x xs ih =>
      obtain ⟨d, rest, hd, hrest, rfl⟩ := List.forall₂_cons_right_iff.mp h
      obtain ⟨y, hy, hplain⟩ := hd.toSingle?
      obtain ⟨ys, hys, hplains⟩ := ih (i + 1) hrest
      refine ⟨y :: ys, by simp only [numbersFrom, hy, hys], ?_⟩
      simp only [List.map_cons, hplain, hplains]

theorem Restates.numbers {r : Record} {key : String} {xs : List Single}
    (h : r.Restates (empty.putNumbers key xs)) :
    ∃ ys, r.numbers key = .ok (some ys) ∧ ys.map Single.plain = xs.map Single.plain := by
  obtain ⟨d, hget, hd⟩ := h.get?
  cases hd with
  | same =>
      refine ⟨(xs.map Single.toDouble).map Double.toSingle, by simp only [Record.numbers, hget], ?_⟩
      simp only [List.map_map]
      exact List.map_congr_left fun x _ => Double.plain_toSingle rfl
  | numbers h =>
      obtain ⟨ys, hys, hplains⟩ := numbersFrom_eq_ok key 0 h
      exact ⟨ys, by simp only [Record.numbers, hget, hys, Except.map], hplains⟩

theorem Restates.text {r : Record} {key s : String} (h : r.Restates (empty.putText key s)) :
    r.text key = .ok (some s) := by
  obtain ⟨d, hget, hd⟩ := h.get?
  cases hd
  simp only [Record.text, hget]

end Record

/-! ## Values up to payloads -/

/-- The value with one pattern for every double that is not a number. -/
def Datum.plain : Datum → Datum
  | .double x => .double x.plain
  | .doubles xs => .doubles (xs.map Double.plain)
  | d => d

def Record.plain (r : Record) : Record := ⟨r.entries.map fun e => (e.1, e.2.plain)⟩

/-! ## Values of kinds -/

namespace Kind

/-- The values of which there are as many as the archetype has. -/
def edited : Kind → List Single
  | .vector xs | .binaryOp _ xs | .call _ xs | .makeVec _ xs | .vertexOut xs => xs
  | _ => []

/-- The second kind is the first with other values, as many of them. -/
structure Fills (k k' : Kind) : Prop where
  variant : k.Variant k'
  length : k.edited.length = k'.edited.length

theorem Fills.refl (k : Kind) : k.Fills k := ⟨.same k, rfl⟩

theorem Fills.trans {k k' k'' : Kind} (h : k.Fills k') (h' : k'.Fills k'') : k.Fills k'' :=
  ⟨h.variant.trans h'.variant, h.length.trans h'.length⟩

/-- The second kind is what a user can make of the first: other values in its fields, any number of
them in the place of inputs, and another operator or function. -/
inductive Altered : Kind → Kind → Prop
  | variant {k k' : Kind} (h : k.Variant k') : Altered k k'
  | operator (operator operator' : String) (xs ys : List Single) :
      Altered (.binaryOp operator xs) (.binaryOp operator' ys)
  | function (function function' : String) (xs ys : List Single) :
      Altered (.call function xs) (.call function' ys)

theorem Altered.refl (k : Kind) : k.Altered k := .variant (.same k)

theorem Altered.trans {k k' k'' : Kind} (h : k.Altered k') (h' : k'.Altered k'') :
    k.Altered k'' := by
  cases h with
  | variant h =>
      cases h' with
      | variant h' => exact .variant (h.trans h')
      | operator => cases h <;> exact .operator _ _ _ _
      | function => cases h <;> exact .function _ _ _ _
  | operator =>
      cases h' with
      | variant h' => cases h' <;> exact .operator _ _ _ _
      | operator => exact .operator _ _ _ _
  | function =>
      cases h' with
      | variant h' => cases h' <;> exact .function _ _ _ _
      | function => exact .function _ _ _ _

/-- The first kind with the values of the second. In the place of inputs it has as many as before. -/
def takeOver : Kind → Kind → Kind
  | .scalar _, .scalar y => .scalar y
  | .vector _, .vector ys => .vector ys
  | .parameter _, .parameter name => .parameter name
  | .binaryOp operator xs, .binaryOp _ ys => .binaryOp operator (overwrite xs ys)
  | .call function xs, .call _ ys => .call function (overwrite xs ys)
  | .makeVec arity xs, .makeVec _ ys => .makeVec arity (overwrite xs ys)
  | .vertexOut xs, .vertexOut ys => .vertexOut (overwrite xs ys)
  | k, _ => k

theorem length_overwrite (xs ys : List Single) : (overwrite xs ys).length = xs.length := by
  fun_induction overwrite xs ys with
  | case1 x xs y ys ih => rw [List.length_cons, ih, List.length_cons]
  | case2 => rfl
  | case3 => rfl

theorem overwrite_of_length {xs ys : List Single} (h : xs.length = ys.length) :
    overwrite xs ys = ys := by
  fun_induction overwrite xs ys with
  | case1 x xs y ys ih => rw [ih (Nat.succ.inj h)]
  | case2 xs => exact List.length_eq_zero_iff.mp h
  | case3 ys => exact (List.length_eq_zero_iff.mp h.symm).symm

theorem map_overwrite (f : Single → Single) (xs ys : List Single) :
    (overwrite xs ys).map f = overwrite (xs.map f) (ys.map f) := by
  fun_induction overwrite xs ys with
  | case1 x xs y ys ih => rw [List.map_cons, ih, List.map_cons, List.map_cons, overwrite]
  | case2 xs => cases xs <;> rfl
  | case3 ys => cases ys <;> rfl

theorem takeOver_of_fills {k k' : Kind} (h : k.Fills k') : k.takeOver k' = k' := by
  obtain ⟨hvariant, hlength⟩ := h
  cases hvariant with
  | same => cases k <;> first | rfl | simp only [takeOver, overwrite_of_length]
  | scalar | vector | parameter => rfl
  | binaryOp operator => exact congrArg (binaryOp operator) (overwrite_of_length hlength)
  | call function => exact congrArg (call function) (overwrite_of_length hlength)
  | makeVec arity => exact congrArg (makeVec arity) (overwrite_of_length hlength)
  | vertexOut => exact congrArg vertexOut (overwrite_of_length hlength)

theorem length_loadEdited {xs ys : List Single} {r : Record} (h : loadEdited xs r = .ok ys) :
    ys.length = xs.length := by
  unfold loadEdited at h
  cases hr : r.numbers "inline" with
  | error e => simp [hr, bind, Except.bind] at h
  | ok given =>
      cases given with
      | none =>
          simp only [hr, bind, Except.bind, pure, Except.pure, Except.ok.injEq] at h
          rw [h]
      | some given =>
          simp only [hr, bind, Except.bind, pure, Except.pure, Except.ok.injEq] at h
          rw [← h, length_overwrite]

/-- The kind with one pattern for every edited value that is not a number. -/
def plain : Kind → Kind
  | .scalar x => .scalar x.plain
  | .vector xs => .vector (xs.map Single.plain)
  | .binaryOp operator xs => .binaryOp operator (xs.map Single.plain)
  | .call function xs => .call function (xs.map Single.plain)
  | .makeVec arity xs => .makeVec arity (xs.map Single.plain)
  | .vertexOut xs => .vertexOut (xs.map Single.plain)
  | k => k

/-- Kinds with values in the place of inputs, which are all saved and loaded in the same way. -/
structure Inline (f : List Single → Kind) : Prop where
  edited : ∀ xs, (f xs).edited = xs
  plain : ∀ xs, (f xs).plain = f (xs.map Single.plain)
  save : ∀ xs, (f xs).save? = some (Record.empty.putNumbers "inline" xs)
  load : ∀ xs r, (f xs).load r = do return f (← loadEdited xs r)

theorem inline_binaryOp (operator : String) : Inline (.binaryOp operator) :=
  ⟨fun _ => rfl, fun _ => rfl, fun _ => rfl, fun _ _ => rfl⟩

theorem inline_call (function : String) : Inline (.call function) :=
  ⟨fun _ => rfl, fun _ => rfl, fun _ => rfl, fun _ _ => rfl⟩

theorem inline_makeVec (arity : UInt8) : Inline (.makeVec arity) :=
  ⟨fun _ => rfl, fun _ => rfl, fun _ => rfl, fun _ _ => rfl⟩

theorem inline_vertexOut : Inline .vertexOut :=
  ⟨fun _ => rfl, fun _ => rfl, fun _ => rfl, fun _ _ => rfl⟩

theorem Inline.length_of_load {f : List Single → Kind} (hf : Inline f) {xs : List Single}
    {r : Record} {k : Kind} (h : (f xs).load r = .ok k) :
    (f xs).edited.length = k.edited.length := by
  rw [hf.load] at h
  cases hys : loadEdited xs r with
  | error e => simp [hys, bind, Except.bind] at h
  | ok ys =>
      simp only [hys, bind, Except.bind, pure, Except.pure, Except.ok.injEq] at h
      rw [← h, hf.edited, hf.edited, length_loadEdited hys]

/-- A record takes values over, and as many as there are. -/
theorem fills_of_load {k k' : Kind} {r : Record} (h : k.load r = .ok k') : k.Fills k' := by
  refine ⟨variant_of_load h, ?_⟩
  cases hvariant : variant_of_load h with
  | same => rfl
  | scalar => rfl
  | vector hlength => exact hlength
  | parameter => rfl
  | binaryOp operator => exact (inline_binaryOp operator).length_of_load h
  | call function => exact (inline_call function).length_of_load h
  | makeVec arity => exact (inline_makeVec arity).length_of_load h
  | vertexOut => exact inline_vertexOut.length_of_load h

/-! ## Saving and loading -/

theorem Inline.load_restated {f : List Single → Kind} (hf : Inline f) (xs : List Single)
    {ys : List Single} {r : Record} (hr : r.Restates (Record.empty.putNumbers "inline" ys)) :
    ∃ k, (f xs).load r = .ok k ∧ k.plain = (f (overwrite xs ys)).plain := by
  obtain ⟨zs, hzs, hplain⟩ := hr.numbers
  refine ⟨f (overwrite xs zs), ?_, ?_⟩
  · simp only [hf.load, loadEdited, hzs, bind, Except.bind, pure, Except.pure]
  · rw [hf.plain, hf.plain, map_overwrite, map_overwrite, hplain]

/-- What was saved is taken over, in whatever way the record says it. -/
theorem load_restated {k k' : Kind} (h : k.Altered k') {fields r : Record}
    (hsave : k'.save? = some fields) (hr : r.Restates fields) :
    ∃ k'', k.load r = .ok k'' ∧ k''.plain = (k.takeOver k').plain := by
  cases k' with
  | scalar y =>
      obtain ⟨x, rfl⟩ : ∃ x, k = .scalar x := by
        cases h with
        | variant h => cases h <;> exact ⟨_, rfl⟩
      cases hsave
      obtain ⟨z, hz, hplain⟩ := hr.number
      exact ⟨.scalar z, by simp [load, hz, bind, Except.bind, pure, Except.pure],
        congrArg Kind.scalar hplain⟩
  | vector ys =>
      obtain ⟨xs, rfl, hlength⟩ : ∃ xs, k = .vector xs ∧ xs.length = ys.length := by
        cases h with
        | variant h =>
            cases h with
            | same => exact ⟨_, rfl, rfl⟩
            | vector hlength => exact ⟨_, rfl, hlength⟩
      cases hsave
      obtain ⟨zs, hzs, hplain⟩ := hr.numbers
      have hsame : zs.length = xs.length := by
        have := congrArg List.length hplain
        rw [List.length_map, List.length_map] at this
        exact this.trans hlength.symm
      exact ⟨.vector zs, by simp [load, hzs, hsame, bind, Except.bind, pure, Except.pure],
        congrArg Kind.vector hplain⟩
  | parameter name =>
      obtain ⟨old, rfl⟩ : ∃ old, k = .parameter old := by
        cases h with
        | variant h => cases h <;> exact ⟨_, rfl⟩
      cases hsave
      exact ⟨.parameter name, by simp [load, hr.text, bind, Except.bind, pure, Except.pure], rfl⟩
  | binaryOp operator' ys =>
      obtain ⟨operator, xs, rfl⟩ : ∃ operator xs, k = .binaryOp operator xs := by
        cases h with
        | variant h => cases h <;> exact ⟨_, _, rfl⟩
        | operator => exact ⟨_, _, rfl⟩
      cases hsave
      exact (inline_binaryOp operator).load_restated xs hr
  | call function' ys =>
      obtain ⟨function, xs, rfl⟩ : ∃ function xs, k = .call function xs := by
        cases h with
        | variant h => cases h <;> exact ⟨_, _, rfl⟩
        | function => exact ⟨_, _, rfl⟩
      cases hsave
      exact (inline_call function).load_restated xs hr
  | makeVec arity ys =>
      obtain ⟨xs, rfl⟩ : ∃ xs, k = .makeVec arity xs := by
        cases h with
        | variant h => cases h <;> exact ⟨_, rfl⟩
      cases hsave
      exact (inline_makeVec arity).load_restated xs hr
  | vertexOut ys =>
      obtain ⟨xs, rfl⟩ : ∃ xs, k = .vertexOut xs := by
        cases h with
        | variant h => cases h <;> exact ⟨_, rfl⟩
      cases hsave
      exact inline_vertexOut.load_restated xs hr
  | _ => cases hsave

/-- A kind without fields has nothing that could be taken over. -/
theorem takeOver_of_save? {k k' : Kind} (hsave : k'.save? = none) : k.takeOver k' = k := by
  cases k' with
  | scalar | vector | parameter | binaryOp | call | makeVec | vertexOut => cases hsave
  | _ => cases k <;> rfl

/-- Saving puts one field into the record. -/
theorem isEmpty_of_save? {k : Kind} {fields : Record} (h : k.save? = some fields) :
    fields.isEmpty = false := by
  cases k <;> cases h <;> rfl

/-- Kinds that agree up to payloads save records that do. -/
theorem plain_save? (k : Kind) : k.plain.save?.map Record.plain = k.save?.map Record.plain := by
  have hone : ∀ (key : String) (x : Single),
      (Record.empty.putNumber key x.plain).plain = (Record.empty.putNumber key x).plain := by
    intro key x
    simp [Record.putNumber, Record.put, Record.insertEntry, Record.empty, Record.plain, Datum.plain]
  have hmany : ∀ (key : String) (xs : List Single),
      (Record.empty.putNumbers key (xs.map Single.plain)).plain =
        (Record.empty.putNumbers key xs).plain := by
    intro key xs
    simp [Record.putNumbers, Record.put, Record.insertEntry, Record.empty, Record.plain, Datum.plain]
  cases k with
  | scalar x => exact congrArg some (hone "value" x)
  | vector xs => exact congrArg some (hmany "values" xs)
  | binaryOp _ xs => exact congrArg some (hmany "inline" xs)
  | call _ xs => exact congrArg some (hmany "inline" xs)
  | makeVec _ xs => exact congrArg some (hmany "inline" xs)
  | vertexOut xs => exact congrArg some (hmany "inline" xs)
  | _ => rfl

/-- What is saved of the values that were taken over is what was saved of the others, up to payloads,
exactly if there were as many of them. -/
theorem plain_save?_takeOver_iff {k k' : Kind} (h : k.Altered k') :
    (k.takeOver k').save?.map Record.plain = k'.save?.map Record.plain ↔
      k.edited.length = k'.edited.length := by
  -- lists of different lengths are saved as different records
  have hinline : ∀ xs ys : List Single,
      (Record.empty.putNumbers "inline" (overwrite xs ys)).plain =
        (Record.empty.putNumbers "inline" ys).plain ↔ xs.length = ys.length := by
    intro xs ys
    refine ⟨fun hsame => ?_, fun hlength => by rw [overwrite_of_length hlength]⟩
    simp only [Record.putNumbers, Record.put, Record.insertEntry, Record.empty, Record.plain,
      Datum.plain, List.map_cons, List.map_nil, Record.mk.injEq, List.cons.injEq, Prod.mk.injEq,
      Datum.doubles.injEq, true_and, and_true] at hsame
    have hlengths := congrArg List.length hsame
    simpa [length_overwrite] using hlengths
  have hmany : ∀ xs ys : List Single,
      some (Record.empty.putNumbers "inline" (overwrite xs ys)).plain =
        some (Record.empty.putNumbers "inline" ys).plain ↔ xs.length = ys.length :=
    fun xs ys => Option.some_inj.trans (hinline xs ys)
  cases h with
  | variant h =>
      cases h with
      | same =>
          refine iff_of_true ?_ rfl
          rw [takeOver_of_fills (.refl k)]
      | scalar | parameter => exact iff_of_true rfl rfl
      | vector hlength => exact iff_of_true rfl hlength
      | binaryOp _ xs ys | call _ xs ys | makeVec _ xs ys | vertexOut xs ys => exact hmany xs ys
  | operator _ _ xs ys | function _ _ xs ys => exact hmany xs ys

end Kind

/-! ## Lists in step -/

theorem map_eq_of_forall₂ {α β γ : Type} {R : α → β → Prop} {f : α → γ} {f' : β → γ}
    (hf : ∀ a b, R a b → f a = f' b) {l : List α} {l' : List β} (h : List.Forall₂ R l l') :
    l.map f = l'.map f' := by
  induction h with
  | nil => rfl
  | cons hab _ ih => rw [List.map_cons, List.map_cons, hf _ _ hab, ih]

theorem mapM_eq_ok {α β ε : Type} {f : α → Except ε β} {l : List α} {l' : List β}
    (h : List.Forall₂ (fun x y => f x = .ok y) l l') : l.mapM f = .ok l' := by
  induction h with
  | nil => rfl
  | cons hx _ ih =>
      rw [List.mapM_cons, hx, ih]
      rfl

end NodeShader

import NodeShader.Proofs.Node.Fields

/-!
# Fields that are loaded in place

A kind that loads a record changes its values where they stand: numbers are put into a list one after
the other, and what was changed before an error stays changed (`Kind.loading`). Still no error leaves
a kind half changed, for the record is read to its end before the first value is written. So what is
left is what `Kind.load` says (`Kind.after_loading`), and that is told by the one field that a kind
reads: it is absent, or it is refused, or what it says is taken over (`Kind.loadsTo_load`).

No record changes how many values there are, so whatever is loaded, in whatever order and with
whatever success, every input of a built-in node that can be edited in place has a number.
-/

namespace NodeShader

open Number (Single Double)

/-! ## Loading in place -/

namespace Kind

/-- The kind with other values in its list. -/
def withEdited (k : Kind) (xs : List Single) : Kind :=
  match k with
  | .vector _ => .vector xs
  | .binaryOp operator _ => .binaryOp operator xs
  | .call function _ => .call function xs
  | .makeVec arity _ => .makeVec arity xs
  | .vertexOut _ => .vertexOut xs
  | k => k

/-- Steps that change a kind. When one fails, the kind stays as it is then. -/
abbrev InPlace := ExceptT FieldError (StateM Kind)

/-- Puts numbers into the list from position `i` on, as far as it goes. -/
def copyFrom : Nat → List Single → InPlace Unit
  | _, [] => return
  | i, x :: rest => do
    let k ← get
    if i < k.edited.length then
      set (k.withEdited (k.edited.set i x))
      copyFrom (i + 1) rest

/-- Goes on with what was read, if there is something and nothing went wrong. -/
def given {α : Type} (field : Except FieldError (Option α)) (steps : α → InPlace Unit) :
    InPlace Unit :=
  match field with
  | .error e => throw e
  | .ok none => return
  | .ok (some x) => steps x

/-- Takes the fields of a record over, value by value. -/
def loading (r : Record) : InPlace Unit := do
  match ← get with
  | .scalar _ => given (r.number "value") fun x => set (Kind.scalar x)
  | .vector xs => given (r.numbers "values") fun ys =>
    if ys.length = xs.length then copyFrom 0 ys else throw (.wrongLength xs.length ys.length)
  | .parameter _ => given (r.text "name") fun name => set (Kind.parameter name)
  | .binaryOp .. | .call .. | .makeVec .. | .vertexOut _ => given (r.numbers "inline") (copyFrom 0)
  | _ => return

/-- What steps leave of a kind: whether they went wrong, and the kind. -/
def after (k : Kind) (steps : InPlace Unit) : Except FieldError Unit × Kind := steps.run.run k

theorem edited_withEdited {k : Kind} (h : k.edited ≠ []) (xs : List Single) :
    (k.withEdited xs).edited = xs := by
  cases k <;> first | rfl | exact absurd rfl h

theorem withEdited_edited (k : Kind) : k.withEdited k.edited = k := by
  cases k <;> rfl

theorem withEdited_withEdited (k : Kind) (xs ys : List Single) :
    (k.withEdited xs).withEdited ys = k.withEdited ys := by
  cases k <;> rfl

/-- One number is put into the list, and the others follow. -/
theorem after_copyFrom_cons (k : Kind) (i : Nat) (x : Single) (rest : List Single) :
    k.after (copyFrom i (x :: rest)) =
      if i < k.edited.length then
        (k.withEdited (k.edited.set i x)).after (copyFrom (i + 1) rest)
      else (.ok (), k) := by
  show (if i < k.edited.length then _ else _ : InPlace Unit).run.run k = _
  split <;> rfl

/-- Copying leaves the list with its first values replaced. -/
theorem after_copyFrom (k : Kind) (i : Nat) (xs : List Single) :
    k.after (copyFrom i xs) =
      (.ok (), k.withEdited (k.edited.take i ++ overwrite (k.edited.drop i) xs)) := by
  induction xs generalizing i k with
  | nil =>
      have hnone : overwrite (k.edited.drop i) [] = k.edited.drop i := by
        cases k.edited.drop i <;> rfl
      rw [hnone, List.take_append_drop, withEdited_edited]
      rfl
  | cons x rest ih =>
      rw [after_copyFrom_cons]
      split
      · rename_i hi
        -- kinds without values have no list to write to, but then there is no place `i` either
        have hne : k.edited ≠ [] := List.ne_nil_of_length_pos (by omega)
        have htaken : (k.edited.set i x).take (i + 1) = k.edited.take i ++ [x] := by
          rw [List.take_set, List.take_add_one, List.getElem?_eq_getElem hi, Option.toList_some,
            List.set_append_right _ _ (List.length_take_le i _), List.length_take_of_le (Nat.le_of_lt hi),
            Nat.sub_self, List.set_cons_zero]
        rw [ih, edited_withEdited hne, withEdited_withEdited, htaken,
          List.drop_set_of_lt (Nat.lt_succ_self i), List.drop_eq_getElem_cons hi, overwrite,
          List.append_assoc, List.singleton_append]
      · rename_i hi
        have hend : overwrite [] (x :: rest) = [] := rfl
        rw [List.drop_of_length_le (Nat.not_lt.mp hi), List.take_of_length_le (Nat.not_lt.mp hi),
          hend, List.append_nil, withEdited_edited]

theorem after_given {α : Type} (k : Kind) (field : Except FieldError (Option α))
    (steps : α → InPlace Unit) :
    k.after (given field steps) =
      match field with
      | .error e => (.error e, k)
      | .ok none => (.ok (), k)
      | .ok (some x) => k.after (steps x) := by
  cases field with
  | error e => rfl
  | ok value => cases value <;> rfl

/-- Kinds with values in the place of inputs load them as the loop does. -/
theorem Inline.after_loading {f : List Single → Kind} (hf : Inline f)
    (hwith : ∀ xs ys, (f xs).withEdited ys = f ys) (xs : List Single) (r : Record) :
    (f xs).after (given (r.numbers "inline") (copyFrom 0)) =
      match (f xs).load r with
      | .ok k' => (.ok (), k')
      | .error e => (.error e, f xs) := by
  rw [after_given, hf.load, loadEdited]
  cases r.numbers "inline" with
  | error e => rfl
  | ok value =>
      cases value with
      | none => rfl
      | some ys =>
          dsimp only
          rw [after_copyFrom, hwith, hf.edited]
          rfl

/-- Loading in place ends as loading does, and with an error it ends where it began. -/
theorem after_loading (k : Kind) (r : Record) :
    k.after (loading r) =
      match k.load r with
      | .ok k' => (.ok (), k')
      | .error e => (.error e, k) := by
  cases k with
  | scalar x =>
      show (Kind.scalar x).after (given (r.number "value") fun x => set (Kind.scalar x)) = _
      rw [after_given, load]
      cases r.number "value" with
      | error e => rfl
      | ok value => cases value <;> rfl
  | vector xs =>
      show (Kind.vector xs).after (given (r.numbers "values") fun ys => if ys.length = xs.length
        then copyFrom 0 ys else throw (.wrongLength xs.length ys.length)) = _
      rw [after_given, load]
      cases r.numbers "values" with
      | error e => rfl
      | ok value =>
          cases value with
          | none => rfl
          | some ys =>
              simp only [bind, Except.bind]
              split
              · rename_i hlength
                rw [after_copyFrom]
                show (_, Kind.vector (overwrite xs ys)) = _
                rw [overwrite_of_length hlength.symm]
                rfl
              · rfl
  | parameter name =>
      show (Kind.parameter name).after (given (r.text "name") fun name => set (Kind.parameter name)) = _
      rw [after_given, load]
      cases r.text "name" with
      | error e => rfl
      | ok value => cases value <;> rfl
  | binaryOp operator xs => exact (inline_binaryOp operator).after_loading (fun _ _ => rfl) xs r
  | call function xs => exact (inline_call function).after_loading (fun _ _ => rfl) xs r
  | makeVec arity xs => exact (inline_makeVec arity).after_loading (fun _ _ => rfl) xs r
  | vertexOut xs => exact inline_vertexOut.after_loading (fun _ _ => rfl) xs r
  | _ => rfl

end Kind

/-! ## What a field says -/

/-- The numbers of a list, however it holds them. -/
def Datum.singles? : Datum → Option (List Single)
  | .list items => items.mapM Datum.toSingle?
  | .doubles xs => some (xs.map Double.toSingle)
  | .singles xs => some xs
  | _ => none

namespace Record

/-- A list is read to its end or to the first item that is no number. -/
theorem numbersFrom_cases (key : String) (i : Nat) (items : List Datum) :
    match items.mapM Datum.toSingle? with
    | some xs => numbersFrom key i items = .ok xs
    | none => ∃ e, numbersFrom key i items = .error e := by
  induction items generalizing i with
  | nil => rfl
  | cons d rest ih =>
      have hrest := ih (i + 1)
      rw [List.mapM_cons, numbersFrom]
      cases d.toSingle? with
      | none => exact ⟨_, rfl⟩
      | some x =>
          cases hxs : rest.mapM Datum.toSingle? with
          | none =>
              obtain ⟨e, he⟩ : ∃ e, numbersFrom key (i + 1) rest = .error e := by
                simpa only [hxs] using hrest
              exact ⟨e, by simp only [he]⟩
          | some xs =>
              have hok : numbersFrom key (i + 1) rest = .ok xs := by simpa only [hxs] using hrest
              simp [hok]

theorem numbers_putNumbers (key : String) (xs : List Single) :
    (empty.putNumbers key xs).numbers key = .ok (some (xs.map fun x => x.toDouble.toSingle)) := by
  simp [numbers, putNumbers, put, insertEntry, empty, get?, Function.comp_def]

theorem numbers_cases {r : Record} {key : String} {d : Datum} (h : r.get? key = some d) :
    match d.singles? with
    | some xs => r.numbers key = .ok (some xs)
    | none => ∃ e, r.numbers key = .error e := by
  unfold numbers
  rw [h]
  cases d with
  | list items =>
      have hitems := numbersFrom_cases key 0 items
      simp only [Datum.singles?]
      cases hxs : items.mapM Datum.toSingle? with
      | none =>
          obtain ⟨e, he⟩ : ∃ e, numbersFrom key 0 items = .error e := by
            simpa only [hxs] using hitems
          exact ⟨e, by rw [he]; rfl⟩
      | some xs =>
          have hok : numbersFrom key 0 items = .ok xs := by simpa only [hxs] using hitems
          simp only [hok, Except.map]
  | doubles xs => rfl
  | singles xs => rfl
  | _ => exact ⟨_, rfl⟩

end Record

namespace Kind

/-- The name of the field that a kind reads. -/
def field? : Kind → Option String
  | .scalar _ => some "value"
  | .vector _ => some "values"
  | .parameter _ => some "name"
  | .binaryOp .. | .call .. | .makeVec .. | .vertexOut _ => some "inline"
  | _ => none

/-- The kind with what its field says, if it can be taken over. A vector takes its values together;
values in the place of inputs are taken as far as there are inputs. -/
def taken? (k : Kind) (d : Datum) : Option Kind :=
  match k with
  | .scalar _ => d.toSingle?.map .scalar
  | .vector xs => d.singles?.bind fun ys => if ys.length = xs.length then some (.vector ys) else none
  | .parameter _ =>
    match d with
    | .text name => some (.parameter name)
    | _ => none
  | .binaryOp .. | .call .. | .makeVec .. | .vertexOut _ =>
    d.singles?.map fun ys => k.withEdited (ys.take k.edited.length ++ k.edited.drop ys.length)
  | _ => none

theorem overwrite_eq (xs ys : List Single) :
    overwrite xs ys = ys.take xs.length ++ xs.drop ys.length := by
  fun_induction overwrite xs ys with
  | case1 x xs y ys ih => simp [ih]
  | case2 xs => simp
  | case3 ys => simp

/-- What loading a record is to end with: the kind stays as it is, refuses its field or takes over
what it says. -/
def LoadsTo (k : Kind) (r : Record) (result : Except FieldError Kind) : Prop :=
  match k.field?.bind r.get? with
  | none => result = .ok k
  | some d =>
    match k.taken? d with
    | some k' => result = .ok k'
    | none => ∃ e, result = .error e

theorem Inline.loadsTo {f : List Single → Kind} (hf : Inline f)
    (hfield : ∀ xs, (f xs).field? = some "inline")
    (htaken : ∀ xs d, (f xs).taken? d =
      d.singles?.map fun ys => f (ys.take xs.length ++ xs.drop ys.length))
    (xs : List Single) (r : Record) : (f xs).LoadsTo r ((f xs).load r) := by
  rw [LoadsTo, hfield, Option.bind_some, hf.load, loadEdited]
  cases hd : r.get? "inline" with
  | none => simp only [Record.numbers, hd]; rfl
  | some d =>
      have hnumbers := Record.numbers_cases hd
      simp only [htaken]
      cases hys : d.singles? with
      | none =>
          obtain ⟨e, he⟩ : ∃ e, r.numbers "inline" = .error e := by
            simpa only [hys] using hnumbers
          exact ⟨e, by rw [he]; rfl⟩
      | some ys =>
          have hok : r.numbers "inline" = .ok (some ys) := by simpa only [hys] using hnumbers
          rw [hok, Option.map_some]
          show Except.ok (f (overwrite xs ys)) = _
          rw [overwrite_eq]

theorem loadsTo_load (k : Kind) (r : Record) : k.LoadsTo r (k.load r) := by
  cases k with
  | scalar x =>
      simp only [LoadsTo, field?, Option.bind_some, load, Record.number]
      cases r.get? "value" with
      | none => rfl
      | some d =>
          dsimp only [taken?]
          cases d.toSingle? with
          | none => exact ⟨_, rfl⟩
          | some y => rfl
  | vector xs =>
      simp only [LoadsTo, field?, Option.bind_some, load]
      cases hd : r.get? "values" with
      | none => simp only [Record.numbers, hd]; rfl
      | some d =>
          have hnumbers := Record.numbers_cases hd
          dsimp only [taken?]
          cases hys : d.singles? with
          | none =>
              obtain ⟨e, he⟩ : ∃ e, r.numbers "values" = .error e := by
                simpa only [hys] using hnumbers
              exact ⟨e, by rw [he]; rfl⟩
          | some ys =>
              have hok : r.numbers "values" = .ok (some ys) := by simpa only [hys] using hnumbers
              rw [hok]
              by_cases hlength : ys.length = xs.length
              · simp only [Option.bind_some, if_pos hlength, bind, Except.bind]
                rfl
              · simp only [Option.bind_some, if_neg hlength, bind, Except.bind]
                exact ⟨_, rfl⟩
  | parameter name =>
      simp only [LoadsTo, field?, Option.bind_some, load, Record.text]
      cases r.get? "name" with
      | none => rfl
      | some d =>
          cases d with
          | text name => rfl
          | _ => exact ⟨_, rfl⟩
  | binaryOp operator xs =>
      exact (inline_binaryOp operator).loadsTo (fun _ => rfl) (fun _ _ => rfl) xs r
  | call function xs => exact (inline_call function).loadsTo (fun _ => rfl) (fun _ _ => rfl) xs r
  | makeVec arity xs => exact (inline_makeVec arity).loadsTo (fun _ => rfl) (fun _ _ => rfl) xs r
  | vertexOut xs => exact inline_vertexOut.loadsTo (fun _ => rfl) (fun _ _ => rfl) xs r
  | _ => rfl

/-! ## Records one after the other -/

/-- The kind after records were loaded one after the other, whether or not they were refused. -/
def afterAll (k : Kind) (rs : List Record) : Kind := rs.foldl (fun k r => (k.after (loading r)).2) k

/-- A record, refused or not, changes no number of values. -/
theorem fills_after_loading (k : Kind) (r : Record) : k.Fills (k.after (loading r)).2 := by
  rw [after_loading]
  cases h : k.load r with
  | error e => exact .refl k
  | ok k' => exact fills_of_load h

theorem fills_afterAll (k : Kind) (rs : List Record) : k.Fills (k.afterAll rs) := by
  induction rs generalizing k with
  | nil => exact .refl k
  | cons r rest ih => exact (fills_after_loading k r).trans (ih _)

theorem Variant.field? {k k' : Kind} (h : k.Variant k') : k'.field? = k.field? := by
  cases h <;> rfl

/-- How many inputs have a number of the kind in their place. -/
def defaultCount (k : Kind) : Nat := if k.field? = some "inline" then k.edited.length else 0

theorem isSome_default?_iff {k : Kind} (h : k.field?.isSome = true) (i : Nat) :
    (k.default? i).isSome = true ↔ i < k.defaultCount := by
  cases k with
  | binaryOp | call | makeVec | vertexOut => simp [default?, defaultCount, field?, edited]
  | scalar | vector | parameter => simp [default?, defaultCount, field?]
  | _ => simp [field?] at h

theorem Fills.defaultCount {k k' : Kind} (h : k.Fills k') : k'.defaultCount = k.defaultCount := by
  unfold Kind.defaultCount
  rw [h.variant.field?, h.length]

theorem isSome_field? (k : Kind) : k.field?.isSome = k.isPersistent := by
  cases k <;> rfl

/-! ## What was saved -/

/-- The kind with its numbers changed. -/
def mapNumbers (f : Single → Single) : Kind → Kind
  | .scalar x => .scalar (f x)
  | k => k.withEdited (k.edited.map f)

/-- The numbers among the values. -/
def numbers : Kind → List Single
  | .scalar x => [x]
  | k => k.edited

theorem mapNumbers_plain (k : Kind) : k.mapNumbers Single.plain = k.plain := by
  cases k <;> rfl

theorem mapNumbers_mapNumbers (f g : Single → Single) (k : Kind) :
    (k.mapNumbers f).mapNumbers g = k.mapNumbers (g ∘ f) := by
  cases k <;> simp [mapNumbers, withEdited, edited]

theorem mapNumbers_eq_self {f : Single → Single} {k : Kind} (h : ∀ x ∈ k.numbers, f x = x) :
    k.mapNumbers f = k := by
  have hmap : ∀ xs : List Single, (∀ x ∈ xs, f x = x) → xs.map f = xs := fun xs hxs =>
    (List.map_congr_left hxs).trans (List.map_id' xs)
  cases k with
  | scalar x => exact congrArg Kind.scalar (h x (by simp [numbers]))
  | vector xs => exact congrArg Kind.vector (hmap xs h)
  | binaryOp operator xs => exact congrArg (Kind.binaryOp operator) (hmap xs h)
  | call function xs => exact congrArg (Kind.call function) (hmap xs h)
  | makeVec arity xs => exact congrArg (Kind.makeVec arity) (hmap xs h)
  | vertexOut xs => exact congrArg Kind.vertexOut (hmap xs h)
  | _ => rfl

theorem Inline.load_saved {f : List Single → Kind} (hf : Inline f)
    (hmap : ∀ xs g, (f xs).mapNumbers g = f (xs.map g)) {xs ys : List Single}
    (hlength : (f xs).edited.length = (f ys).edited.length) {fields : Record}
    (hsave : (f ys).save? = some fields) :
    (f xs).load fields = .ok ((f ys).mapNumbers fun x => x.toDouble.toSingle) := by
  rw [hf.save, Option.some.injEq] at hsave
  rw [hf.edited, hf.edited] at hlength
  rw [hf.load, loadEdited, ← hsave, Record.numbers_putNumbers, hmap]
  exact congrArg (fun zs => Except.ok (f zs)) (overwrite_of_length (by simpa using hlength))

/-- A kind with as many values takes over what was saved, widened and narrowed again. -/
theorem load_saved {k k' : Kind} (h : k.Fills k') {fields : Record} (hsave : k'.save? = some fields) :
    k.load fields = .ok (k'.mapNumbers fun x => x.toDouble.toSingle) := by
  obtain ⟨hvariant, hlength⟩ := h
  cases k' with
  | scalar y =>
      obtain ⟨x, rfl⟩ : ∃ x, k = .scalar x := by cases hvariant <;> exact ⟨_, rfl⟩
      cases hsave
      rfl
  | vector ys =>
      obtain ⟨xs, rfl⟩ : ∃ xs, k = .vector xs := by cases hvariant <;> exact ⟨_, rfl⟩
      cases hsave
      have hsame : (ys.map fun x => x.toDouble.toSingle).length = xs.length := by
        rw [List.length_map]
        exact hlength.symm
      rw [load, Record.numbers_putNumbers]
      simp only [bind, Except.bind, if_pos hsame]
      rfl
  | parameter name =>
      obtain ⟨old, rfl⟩ : ∃ old, k = .parameter old := by cases hvariant <;> exact ⟨_, rfl⟩
      cases hsave
      rfl
  | binaryOp operator ys =>
      obtain ⟨xs, rfl⟩ : ∃ xs, k = .binaryOp operator xs := by cases hvariant <;> exact ⟨_, rfl⟩
      exact (inline_binaryOp operator).load_saved (fun _ _ => rfl) hlength hsave
  | call function ys =>
      obtain ⟨xs, rfl⟩ : ∃ xs, k = .call function xs := by cases hvariant <;> exact ⟨_, rfl⟩
      exact (inline_call function).load_saved (fun _ _ => rfl) hlength hsave
  | makeVec arity ys =>
      obtain ⟨xs, rfl⟩ : ∃ xs, k = .makeVec arity xs := by cases hvariant <;> exact ⟨_, rfl⟩
      exact (inline_makeVec arity).load_saved (fun _ _ => rfl) hlength hsave
  | vertexOut ys =>
      obtain ⟨xs, rfl⟩ : ∃ xs, k = .vertexOut xs := by cases hvariant <;> exact ⟨_, rfl⟩
      exact inline_vertexOut.load_saved (fun _ _ => rfl) hlength hsave
  | _ => cases hsave

end Kind

/-! ## Built-in nodes -/

/-- Built-in kinds with fields have a number in the place of every input. -/
theorem Catalogue.defaultCount_of_mem :
    ∀ e ∈ registrations, e.initial.isPersistent = true →
      e.initial.defaultCount = e.archetype.inputs.length := by
  decide +kernel

/-- A built-in kind with fields, whatever its values are, loads any record in one piece. Without its
field it stays as it is. With one that it takes, exactly what the field says is taken over: a number,
a name, all values of a vector, or the values that are there for inputs. Otherwise there is an error
and nothing has changed. No sequence of records changes the number of values, so the inputs of the
archetype are those that have a number; and what was saved is loaded again. -/
theorem Registry.loads_atomically {handle : Handle} {e : Registration}
    (he : builtin.get? handle = some e) (hfields : e.initial.isPersistent = true) {k : Kind}
    (hk : e.initial.Variant k) :
    (∀ r : Record,
      (match k.field?.bind r.get? with
        | none => k.after (Kind.loading r) = (.ok (), k)
        | some d =>
          match k.taken? d with
          | some k' => k.after (Kind.loading r) = (.ok (), k')
          | none => ∃ err, k.after (Kind.loading r) = (.error err, k)) ∧
      k.load r = (k.after (Kind.loading r)).1.map fun _ => (k.after (Kind.loading r)).2) ∧
    (∀ rs : List Record, e.initial.Variant (k.afterAll rs) ∧
      (k.afterAll rs).edited.length = k.edited.length) ∧
    (k.edited.length = e.initial.edited.length → ∀ (rs : List Record) (i : Nat),
      ((k.afterAll rs).default? i).isSome = true ↔ i < e.archetype.inputs.length) ∧
    ∃ saved, k.save? = some saved ∧ ∀ k₀ : Kind, k₀.Fills k →
      ∃ k', k₀.after (Kind.loading saved) = (.ok (), k') ∧ k'.plain = k.plain ∧
        ((∀ x ∈ k.numbers, x.isSignalling = false) → k' = k) := by
  refine ⟨fun r => ?_, fun rs => ?_, fun hlength rs i => ?_, ?_⟩
  · have hcases := k.loadsTo_load r
    unfold Kind.LoadsTo at hcases
    rw [k.after_loading r]
    cases hd : k.field?.bind r.get? with
    | none =>
        simp only [hd] at hcases
        rw [hcases]
        exact ⟨rfl, rfl⟩
    | some d =>
        cases htaken : k.taken? d with
        | none =>
            simp only [hd, htaken] at hcases
            obtain ⟨err, herr⟩ := hcases
            simp only [herr, htaken]
            exact ⟨⟨err, rfl⟩, rfl⟩
        | some k' =>
            simp only [hd, htaken] at hcases
            simp only [hcases, htaken]
            exact ⟨trivial, rfl⟩
  · have hfills := k.fills_afterAll rs
    exact ⟨hk.trans hfills.variant, hfills.length.symm⟩
  · obtain ⟨e', he', hinitial, hshape⟩ := exists_catalogue_of_get?_builtin he
    have hcount := Catalogue.defaultCount_of_mem e' he' (hinitial ▸ hfields)
    have hfills : e.initial.Fills (k.afterAll rs) :=
      (Kind.Fills.mk hk hlength.symm).trans (k.fills_afterAll rs)
    have hsome : (k.afterAll rs).field?.isSome = true := by
      rw [hfills.variant.field?, Kind.isSome_field?]
      exact hfields
    rw [Kind.isSome_default?_iff hsome, hfills.defaultCount, hinitial, hcount, ← hshape.inputs]
  · have hpersistent : k.isPersistent = true := by
      rw [← Kind.isSome_field?, hk.field?, Kind.isSome_field?]
      exact hfields
    obtain ⟨saved, hsaved⟩ := Option.isSome_iff_exists.mp hpersistent
    refine ⟨saved, hsaved, fun k₀ hfills => ⟨k.mapNumbers fun x => x.toDouble.toSingle, ?_, ?_, ?_⟩⟩
    · rw [Kind.after_loading, Kind.load_saved hfills hsaved]
    · rw [← Kind.mapNumbers_plain, ← Kind.mapNumbers_plain, Kind.mapNumbers_mapNumbers]
      congr 1
      funext x
      exact Double.plain_toSingle rfl
    · exact fun hquiet => Kind.mapNumbers_eq_self fun x hx =>
        Single.toSingle_toDouble_of_quiet (hquiet x hx)

/-- A list that fails at its second item changes nothing, and a list of one item changes one value. -/
theorem Registry.loads_atomically_add :
    let k : Kind := .binaryOp "+" [.zero, .zero]
    let half : Record := Record.empty.put "inline" (.list [.single .one, .text "x"])
    let short : Record := Record.empty.put "inline" (.list [.single .one])
    (∃ err, k.after (Kind.loading half) = (.error err, k)) ∧
      k.after (Kind.loading short) = (.ok (), .binaryOp "+" [.one, .zero]) := by
  intro k half short
  have hget : builtin.get? 4 = some (Catalogue.operator "add" "Add" "+" .zero) := by
    with_unfolding_all rfl
  have hload := (loads_atomically hget rfl (.same k)).1
  exact ⟨(hload half).1, (hload short).1⟩

end NodeShader

import NodeShader.Proofs.Source.Ast

/-!
# Reading source text

A reader of expressions by the precedence of operators. It keeps a stack of what has been opened and
not finished: a sign, a left operand, a parenthesis, a call, a subscript. A selection, a call or a
subscript applies to the value just read; an operator first finishes everything on the stack that
holds as tightly as itself or more tightly, and a closing mark everything down to what it closes.

Reading inverts writing on the trees of the grammar (`parse_print`): what a tree derived at some level
leaves on the stack is as good as the tree itself once it is finished.
-/

namespace NodeShader

open Lexeme

namespace Reader

/-- What has been opened. -/
inductive Frame where
  | sign
  /-- A left operand, with the rank of its operator. -/
  | left (rank : Nat) (operator : String) (x : Ast)
  | group
  | call (f : String) (args : List Ast)
  | index (x : Ast)

inductive State where
  /-- An operand is to follow. -/
  | operand (stack : List Frame)
  /-- A value has been read. -/
  | value (x : Ast) (stack : List Frame)
  /-- A value and a point have been read. -/
  | point (x : Ast) (stack : List Frame)

/-- How tightly an operator holds its operands. -/
def rank? (c : Char) : Option Nat :=
  if c = '+' ∨ c = '-' then some 1 else if c = '*' ∨ c = '/' then some 2 else none

/-- Finishes what holds at least as tightly as the rank. -/
def reduce (n : Nat) : Ast → List Frame → Ast × List Frame
  | x, .sign :: rest => reduce n (.negate x) rest
  | x, .left rank operator a :: rest =>
    if n ≤ rank then reduce n (.binary operator a x) rest else (x, .left rank operator a :: rest)
  | x, rest => (x, rest)

/-- A mark where an operand is to follow. -/
def opening (c : Char) (stack : List Frame) : Option State :=
  if c = '(' then some (.operand (.group :: stack))
  else
    match c, stack with
    | '-', .sign :: _ => none
    | '-', _ => some (.operand (.sign :: stack))
    | ')', .call f [] :: rest => some (.value (.apply f []) rest)
    | _, _ => none

/-- A mark that closes what stands on top of the stack, or continues a call. -/
def closing (c : Char) : Ast × List Frame → Option State
  | (x, .group :: rest) => if c = ')' then some (.value (.group x) rest) else none
  | (x, .call f args :: rest) =>
    if c = ')' then some (.value (.apply f (args ++ [x])) rest)
    else if c = ',' then some (.operand (.call f (args ++ [x]) :: rest))
    else none
  | (x, .index a :: rest) => if c = ']' then some (.value (.index a x) rest) else none
  | _ => none

/-- A mark after a value. -/
def following (c : Char) (x : Ast) (stack : List Frame) : Option State :=
  if c = '.' then some (.point x stack)
  else if c = '[' then some (.operand (.index x :: stack))
  else if c = '(' then
    match x with
    | .name f => some (.operand (.call f [] :: stack))
    | _ => none
  else
    match rank? c with
    | some n =>
      let (a, rest) := reduce n x stack
      some (.operand (.left n (String.singleton c) a :: rest))
    | none => closing c (reduce 1 x stack)

/-- A word after a point: the fraction of a number or a selection. -/
def selecting (w : List Char) (x : Ast) (stack : List Frame) : Option State :=
  if startsWithDigit w then
    match x with
    | .integer digits => some (.value (.number digits (String.ofList w)) stack)
    | _ => none
  else some (.value (.select x (String.ofList w)) stack)

/-- Reads one token. -/
def step : State → Lexeme → Option State
  | .operand stack, .word w =>
    some (.value (if startsWithDigit w then .integer (String.ofList w) else .name (String.ofList w))
      stack)
  | .operand stack, .mark c => opening c stack
  | .value x stack, .mark c => following c x stack
  | .value _ _, .word _ => none
  | .point x stack, .word w => selecting w x stack
  | .point _ _, .mark _ => none

/-- Reads tokens to the end. -/
def read : State → List Lexeme → Option Ast
  | .value x stack, [] =>
    match reduce 1 x stack with
    | (t, []) => some t
    | _ => none
  | _, [] => none
  | state, token :: rest =>
    match step state token with
    | some next => read next rest
    | none => none

end Reader

open Reader

/-- The tree of an expression. -/
def parse (s : String) : Option Ast := read (.operand []) (tokens s)

/-! ## Reading what was written -/

namespace Reader

theorem read_of_step {state next : State} {token : Lexeme} (h : step state token = some next)
    (rest : List Lexeme) : read state (token :: rest) = read next rest := by
  cases state <;> simp only [read, h]

/-- Can an expression of the rank follow? -/
def Opens (n : Nat) : List Frame → Prop
  | .sign :: _ => n = Level.primary.rank
  | .left rank _ _ :: _ => rank < n
  | _ => True

theorem reduce_of_opens {n : Nat} {stack : List Frame} (h : Opens n stack)
    (hn : n < Level.primary.rank) (x : Ast) : reduce n x stack = (x, stack) := by
  match stack with
  | [] | .group :: _ | .call .. :: _ | .index _ :: _ => rfl
  | .sign :: _ =>
      simp only [Opens] at h
      omega
  | .left rank _ _ :: _ =>
      simp only [Opens] at h
      simp only [reduce, if_neg (Nat.not_le.mpr h)]

/-- Reading the tokens leaves a value and frames that amount to the tree; at the tightest level it
leaves the tree itself. -/
structure Reads (l : Level) (ts : List Lexeme) (t : Ast) : Prop where
  value : ∀ stack, Opens l.rank stack → ∃ x frames,
    (∀ rest, read (.operand stack) (ts ++ rest) = read (.value x (frames ++ stack)) rest) ∧
    ∀ n, n ≤ l.rank → reduce n x (frames ++ stack) = reduce n t stack
  exact : l = .primary →
    ∀ stack rest, read (.operand stack) (ts ++ rest) = read (.value t stack) rest

theorem Reads.of_exact {ts : List Lexeme} {t : Ast}
    (h : ∀ stack rest, read (.operand stack) (ts ++ rest) = read (.value t stack) rest) :
    Reads .primary ts t :=
  ⟨fun stack _ => ⟨t, [], h stack, fun _ _ => rfl⟩, fun _ => h⟩

/-- What is read at a level is read at every looser one. -/
theorem Reads.loosen {l l' : Level} (hle : l.rank ≤ l'.rank) (hl : l ≠ .primary)
    {ts : List Lexeme} {t : Ast} (h : Reads l' ts t) : Reads l ts t := by
  refine ⟨fun stack hstack => ?_, fun heq => absurd heq hl⟩
  have hrank : l.rank < Level.primary.rank := by cases l <;> simp_all [Level.rank]
  have hopens : Opens l'.rank stack := by
    match stack with
    | [] | .group :: _ | .call .. :: _ | .index _ :: _ => trivial
    | .sign :: _ =>
        simp only [Opens] at hstack
        omega
    | .left .. :: _ =>
        simp only [Opens] at hstack ⊢
        omega
  obtain ⟨x, frames, hread, hreduce⟩ := h.value stack hopens
  exact ⟨x, frames, hread, fun n hn => hreduce n (Nat.le_trans hn hle)⟩

/-- An operation: the left operand is finished when its operator comes, and the right one after
it. -/
theorem Reads.binary {l r : Level} {c : Char} (hc : rank? c = some l.rank)
    (hr : r.rank = l.rank + 1) {ts us : List Lexeme} {x y : Ast} (hx : Reads l ts x)
    (hy : Reads r us y) :
    Reads l (ts ++ .mark c :: us) (.binary (String.singleton c) x y) := by
  have hrank : l.rank < Level.primary.rank := by
    have : r.rank ≤ Level.primary.rank := by cases r <;> decide
    omega
  refine ⟨fun stack hstack => ?_, ?_⟩
  · obtain ⟨a, frames, hread, hreduce⟩ := hx.value stack hstack
    have hopens : Opens r.rank (.left l.rank (String.singleton c) x :: stack) := by
      simp only [Opens]
      omega
    obtain ⟨b, frames', hread', hreduce'⟩ := hy.value _ hopens
    have hstep : step (.value a (frames ++ stack)) (.mark c) =
        some (.operand (.left l.rank (String.singleton c) x :: stack)) := by
      have hmark : c ≠ '.' ∧ c ≠ '[' ∧ c ≠ '(' := by
        refine ⟨?_, ?_, ?_⟩ <;> rintro rfl <;> exact absurd hc (by simp [rank?])
      simp only [step, following, hmark, if_false, hc]
      rw [hreduce l.rank (Nat.le_refl _), reduce_of_opens hstack hrank]
    refine ⟨b, frames' ++ [.left l.rank (String.singleton c) x], fun rest => ?_, fun n hn => ?_⟩
    · rw [List.append_assoc, List.cons_append, hread, read_of_step hstep, hread']
      simp
    · have hfinish := hreduce' n (by omega)
      rw [List.append_assoc, List.singleton_append, hfinish, reduce, if_pos hn]
  · rintro rfl
    exact absurd hrank (by simp)

theorem Reads.negate {ts : List Lexeme} {x : Ast} (hx : Reads .primary ts x) :
    Reads .unary (.mark '-' :: ts) (.negate x) := by
  refine ⟨fun stack hstack => ⟨x, [.sign], fun rest => ?_, fun n _ => rfl⟩, by simp⟩
  have hstep : step (.operand stack) (.mark '-') = some (.operand (.sign :: stack)) := by
    match stack with
    | [] | .group :: _ | .call .. :: _ | .index _ :: _ | .left .. :: _ => rfl
    | .sign :: _ => exact absurd hstack (by simp [Opens, Level.rank])
  rw [List.cons_append, read_of_step hstep, hx.exact rfl]
  rfl

/-- A sum up to a mark that closes it. -/
theorem Reads.close {ts : List Lexeme} {x : Ast} (hx : Reads .sum ts x) (c : Char) (frame : Frame)
    (stack : List Frame) {next : State} (hnext : closing c (x, frame :: stack) = some next)
    (rest : List Lexeme) (hframe : Opens 1 (frame :: stack)) (hc : rank? c = none)
    (hmark : c ≠ '.' ∧ c ≠ '[' ∧ c ≠ '(') :
    read (.operand (frame :: stack)) (ts ++ .mark c :: rest) = read next rest := by
  obtain ⟨a, frames, hread, hreduce⟩ := hx.value (frame :: stack) hframe
  rw [hread]
  refine read_of_step ?_ rest
  simp only [step, following, hmark, if_false, hc]
  rw [hreduce 1 (Nat.le_refl _), reduce_of_opens hframe (by decide), hnext]

/-- The arguments of a call, after some that have been read. -/
theorem read_args (f : String) (args : List (List Lexeme × Ast))
    (h : ∀ a ∈ args, Reads .sum a.1 a.2) (hne : args ≠ []) (stack : List Frame)
    (rest : List Lexeme) : ∀ done : List Ast,
    read (.operand (.call f done :: stack))
      ([.mark ','].intercalate (args.map Prod.fst) ++ .mark ')' :: rest) =
        read (.value (.apply f (done ++ args.map Prod.snd)) stack) rest := by
  induction args with
  | nil => exact absurd rfl hne
  | cons a args ih =>
      intro done
      have ha := h a (by simp)
      cases args with
      | nil =>
          rw [List.map_singleton, List.intercalate_singleton, List.map_singleton]
          exact ha.close ')' _ stack rfl rest trivial rfl (by decide)
      | cons b args =>
          have hmore := ih (fun x hx => h x (List.mem_cons_of_mem _ hx)) (by simp) (done ++ [a.2])
          rw [List.append_assoc, List.singleton_append, ← List.map_cons] at hmore
          rw [List.map_cons, List.map_cons, List.intercalate_cons_cons, ← List.map_cons,
            List.append_assoc, List.append_assoc, List.singleton_append]
          exact (ha.close ',' (.call f done) stack rfl _ trivial rfl (by decide)).trans hmore

/-- What is derived is read. -/
theorem reads_of_derives {l : Level} {t : Ast} (h : Derives l t) : Reads l (tokens t.print) t := by
  have hbinary : ∀ {l r : Level} {operator : String} {x y : Ast} {c : Char},
      operator = String.singleton c → isNameChar c = false ∧ c ≠ ' ' → rank? c = some l.rank →
      r.rank = l.rank + 1 → Reads l (tokens x.print) x → Reads r (tokens y.print) y →
      Reads l (tokens (Ast.binary operator x y).print) (.binary operator x y) := by
    intro l r operator x y c hop hc hrank hr hx hy
    subst hop
    rw [Ast.print, tokens_binary hc.1 hc.2]
    exact hx.binary hrank hr hy
  have hword : ∀ {s : String} {t : Ast}, tokens s = [.word s.toList] →
      (if startsWithDigit s.toList then Ast.integer s else .name s) = t →
      Reads .primary (tokens s) t := by
    intro s t hs ht
    refine .of_exact fun stack rest => ?_
    rw [hs, List.singleton_append, read_of_step rfl, String.ofList_toList, ht]
  induction h with
  | ofProduct _ ih | ofUnary _ ih | ofPrimary _ ih => exact ih.loosen (by decide) (by decide)
  | sum hop _ _ ihx ihy =>
      simp only [List.mem_cons, List.not_mem_nil, or_false] at hop
      rcases hop with rfl | rfl
      · exact hbinary (c := '+') rfl (by decide) rfl rfl ihx ihy
      · exact hbinary (c := '-') rfl (by decide) rfl rfl ihx ihy
  | product hop _ _ ihx ihy =>
      simp only [List.mem_cons, List.not_mem_nil, or_false] at hop
      rcases hop with rfl | rfl
      · exact hbinary (c := '*') rfl (by decide) rfl rfl ihx ihy
      · exact hbinary (c := '/') rfl (by decide) rfl rfl ihx ihy
  | negate _ ih =>
      rw [Ast.print, tokens_negate]
      exact ih.negate
  | @number whole fraction hw hf =>
      refine .of_exact fun stack rest => ?_
      rw [Ast.print, show whole ++ "." ++ fraction = Code.select whole fraction from rfl,
        tokens_select, hw.tokens, hf.tokens]
      have hstep : step (.point (.integer whole) stack) (.word fraction.toList) =
          some (.value (.number whole fraction) stack) := by
        simp only [step, selecting, hf.start, if_true, String.ofList_toList]
      simp only [List.cons_append, List.nil_append]
      rw [read_of_step rfl, hw.start, if_pos rfl, String.ofList_toList,
        @read_of_step _ (.point (.integer whole) stack) _ rfl, read_of_step hstep]
  | integer h => exact hword h.tokens (if_pos h.start)
  | name h => exact hword h.tokens (if_neg (Bool.eq_false_iff.mp h.start))
  | @apply f args hf _ ih =>
      refine .of_exact fun stack rest => ?_
      rw [Ast.print, tokens_apply, hf.tokens, Ast.printAll_eq_map, List.map_map]
      simp only [List.cons_append, List.nil_append, List.append_assoc]
      rw [read_of_step rfl, hf.start, String.ofList_toList, if_neg (by decide),
        @read_of_step _ (.operand (.call f [] :: stack)) _ rfl]
      cases args with
      | nil => exact read_of_step rfl rest
      | cons a args =>
          have hargs := read_args f ((a :: args).map fun t => (tokens t.print, t))
            (by simpa using ih) (by simp) stack rest []
          simpa [Function.comp_def] using hargs
  | select _ hc ih =>
      refine .of_exact fun stack rest => ?_
      rw [Ast.print, tokens_select, hc.tokens, List.append_assoc, ih.exact rfl]
      simp only [List.cons_append, List.nil_append]
      rw [read_of_step rfl]
      refine read_of_step ?_ rest
      simp only [step, selecting, hc.start, String.ofList_toList, Bool.false_eq_true, if_false]
  | index _ _ ihx ihi =>
      refine .of_exact fun stack rest => ?_
      rw [Ast.print, tokens_index, List.append_assoc, ihx.exact rfl]
      simp only [List.cons_append, List.append_assoc, List.nil_append]
      rw [read_of_step rfl]
      exact ihi.close ']' _ stack rfl rest trivial rfl (by decide)
  | group _ ih =>
      refine .of_exact fun stack rest => ?_
      rw [Ast.print, tokens_group]
      simp only [List.cons_append, List.append_assoc, List.nil_append]
      rw [read_of_step rfl]
      exact ih.close ')' _ stack rfl rest trivial rfl (by decide)

end Reader

/-- Reading a written tree of the grammar gives it back. -/
theorem parse_print {t : Ast} (h : Derives .sum t) : parse t.print = some t := by
  obtain ⟨x, frames, hread, hreduce⟩ := (reads_of_derives h).value [] trivial
  have hend := hread []
  rw [List.append_nil] at hend
  rw [parse, hend]
  simp only [Reader.read, hreduce 1 (Nat.le_refl _)]
  rfl

example : parse "a + b * c" =
    some (.binary "+" (.name "a") (.binary "*" (.name "b") (.name "c"))) := by rfl

end NodeShader

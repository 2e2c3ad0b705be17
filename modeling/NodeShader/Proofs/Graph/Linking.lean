import Mathlib.Data.List.Sort
import NodeShader.Proofs.Graph.Edited

/-!
# Linking two pins

Pins are raw words and come in either order. Linking them checks them one after the other, looks for
the link into the same input, takes it out and puts the new link at its place. Read from outside it
is one rule: a link that is legal (`Graph.IsLegal`) replaces what led to its input (`Graph.withLink`),
and any other leaves the graph as it is.

* `Graph.WellLinked.link_eq_ok_iff`: what linking answers, and for which pins.
* `Graph.WellLinked.withLink_comm`: links into different inputs can be made in either order.
* `Graph.link_spec`: both for every graph that calls can make.
-/

namespace NodeShader

namespace LinkList

instance : Std.Irrefl (fun a b : Link => a < b) := ⟨Link.not_lt_self⟩

instance : Std.Antisymm (fun a b : Link => a < b) :=
  ⟨fun _ _ hab hba => absurd hba (Link.not_lt_of_lt hab)⟩

/-- A sorted list is known by its members. -/
theorem eq_of_mem_iff {xs ys : List Link} (hxs : Sorted xs) (hys : Sorted ys)
    (h : ∀ l, l ∈ xs ↔ l ∈ ys) : xs = ys := List.Pairwise.eq_of_mem_iff hxs hys h

end LinkList

namespace Graph

variable {α : Type} {g g' : Graph α} {a b c d : Pin} {l m : Link}

/-! ## The graph with a link -/

/-- The graph with a link in the place of the one that led to the same pin. -/
def withLink (g : Graph α) (l : Link) : Graph α :=
  { g with links := LinkList.insert l (g.links.filter (·.target ≠ l.target)) }

theorem WellLinked.mem_withLink (h : g.WellLinked) (l : Link) {x : Link} :
    x ∈ (g.withLink l).links ↔ x = l ∨ x ∈ g.links ∧ x.target ≠ l.target :=
  (h.insert_filter l).2 x

/-- The second graph is the first with one more link at its place in the order. The link that led to
the same pin, of which there is one at most, is gone, and all else is as it was. -/
structure GainsLink (g g' : Graph α) (l : Link) : Prop where
  frame : g'.nodes = g.nodes ∧ g'.index = g.index ∧ g'.lastId = g.lastId
  displaced : (g.links.filter (·.target = l.target)).length ≤ 1
  place : ∃ before after, g.links.filter (·.target ≠ l.target) = before ++ after ∧
    g'.links = before ++ l :: after ∧ (∀ x ∈ before, x < l) ∧ ∀ x ∈ after, l < x

/-- Links into one pin are one link. -/
theorem WellLinked.length_filter_target_le (h : g.WellLinked) (p : Pin) :
    (g.links.filter (·.target = p)).length ≤ 1 := by
  have hsorted : LinkList.Sorted (g.links.filter (·.target = p)) :=
    h.sorted.sublist List.filter_sublist
  have hmem : ∀ x ∈ g.links.filter (·.target = p), x ∈ g.links ∧ x.target = p := by
    intro x hx
    simpa using List.mem_filter.mp hx
  generalize g.links.filter (·.target = p) = into at hsorted hmem
  match into, hsorted, hmem with
  | [], _, _ => exact Nat.zero_le _
  | [_], _, _ => exact Nat.le_refl _
  | x :: y :: rest, hsorted, hmem =>
      obtain ⟨hx, hxp⟩ := hmem x (by simp)
      obtain ⟨hy, hyp⟩ := hmem y (by simp)
      have hlt : x < y := (List.pairwise_cons.mp hsorted).1 y (by simp)
      have heq : x = y := h.single x hx y hy (hxp.trans hyp.symm)
      exact absurd (heq ▸ hlt) (Link.not_lt_self x)

theorem WellLinked.gainsLink_withLink (h : g.WellLinked) (l : Link) :
    g.GainsLink (g.withLink l) l where
  frame := ⟨rfl, rfl, rfl⟩
  displaced := h.length_filter_target_le l.target
  place := by
    have hsorted : LinkList.Sorted (g.links.filter (·.target ≠ l.target)) :=
      h.sorted.sublist List.filter_sublist
    refine ⟨_, _, (LinkList.below_append_atLeast l _).symm, rfl, ?_, ?_⟩
    · exact fun x hx => ((LinkList.mem_below hsorted).mp hx).2
    · intro x hx
      obtain ⟨hmem, hnot⟩ := (LinkList.mem_atLeast hsorted).mp hx
      refine Link.lt_of_not_lt hnot ?_
      rintro rfl
      simp at hmem

/-- Links into different pins can be put in either order. -/
theorem WellLinked.withLink_comm (h : g.WellLinked) (hl : (g.withLink l).WellLinked)
    (hm : (g.withLink m).WellLinked) (hne : m.target ≠ l.target) :
    (g.withLink l).withLink m = (g.withLink m).withLink l := by
  have hlinks : ((g.withLink l).withLink m).links = ((g.withLink m).withLink l).links := by
    refine LinkList.eq_of_mem_iff (hl.insert_filter m).1 (hm.insert_filter l).1 fun x => ?_
    have hfirst := hl.mem_withLink m (x := x)
    have hsecond := hm.mem_withLink l (x := x)
    rw [h.mem_withLink l] at hfirst
    rw [h.mem_withLink m] at hsecond
    refine hfirst.trans (Iff.trans ?_ hsecond.symm)
    constructor
    · rintro (rfl | ⟨rfl | ⟨hx, hxl⟩, hxm⟩)
      · exact .inr ⟨.inl rfl, hne⟩
      · exact .inl rfl
      · exact .inr ⟨.inr ⟨hx, hxm⟩, hxl⟩
    · rintro (rfl | ⟨rfl | ⟨hx, hxm⟩, hxl⟩)
      · exact .inr ⟨.inl rfl, Ne.symm hne⟩
      · exact .inl rfl
      · exact .inr ⟨.inr ⟨hx, hxl⟩, hxm⟩
  exact congrArg (fun links => { g with links }) hlinks

/-! ## Legal links -/

variable [CountsPins α]

/-- The pin is valid and on a node of the graph, below the number of its pins on that side if the
node counts them. -/
def Offers (g : Graph α) (p : Pin) : Prop :=
  p.isValid = true ∧ ∃ n, g.node? p.node = some n ∧
    ∀ count, CountsPins.pinCount? n = some count → p.index < count.on p.direction

/-- The two pins are an input and an output of different nodes of the graph, and there is no link
between them. -/
structure IsLegal (g : Graph α) (a b : Pin) : Prop where
  directions : a.direction ≠ b.direction
  apart : a.node ≠ b.node
  first : g.Offers a
  second : g.Offers b
  new : .between a b ∉ g.links

theorem IsLegal.symm (h : g.IsLegal a b) : g.IsLegal b a where
  directions := h.directions.symm
  apart := h.apart.symm
  first := h.second
  second := h.first
  new := Link.between_comm h.directions ▸ h.new

theorem checkPin_eq_ok_iff {p : Pin} : g.checkPin p = .ok () ↔ g.Offers p := by
  unfold checkPin Offers
  cases p.isValid with
  | false => simp
  | true =>
      cases g.node? p.node with
      | none => simp
      | some n =>
          cases hcount : CountsPins.pinCount? n with
          | none => simp [hcount]
          | some count =>
              by_cases hle : (count.on p.direction : Int) ≤ p.index
              · simp [hcount, hle]
              · simp [hcount, hle, Int.not_le.mp hle]

theorem WellLinked.canLink_eq_ok_iff (h : g.WellLinked) :
    g.canLink a b = .ok () ↔ g.IsLegal a b := by
  constructor
  · intro hcan
    obtain ⟨hdir, hnode, ha, hb, hnew⟩ := canLink_ok hcan
    refine ⟨hdir, hnode, checkPin_eq_ok_iff.mp ha, checkPin_eq_ok_iff.mp hb, fun hmem => ?_⟩
    rw [hasLink, (LinkList.has_iff h.sorted).mpr hmem] at hnew
    exact absurd hnew (by simp)
  · intro hlegal
    have hne : a ≠ b := fun heq => hlegal.directions (congrArg Pin.direction heq)
    have hnew : g.hasLink (.between a b) = false :=
      Bool.eq_false_iff.mpr fun hhas => hlegal.new ((LinkList.has_iff h.sorted).mp hhas)
    unfold canLink
    rw [if_neg hne, if_neg hlegal.directions, if_neg hlegal.apart,
      checkPin_eq_ok_iff.mpr hlegal.first, checkPin_eq_ok_iff.mpr hlegal.second, hnew]
    rfl

/-- Linking succeeds for legal links only, and then the link takes its place. -/
theorem WellLinked.link_eq_ok_iff (h : g.WellLinked) :
    g.link a b = .ok (l, g') ↔ g.IsLegal a b ∧ l = .between a b ∧ g' = g.withLink l := by
  rw [← h.canLink_eq_ok_iff]
  constructor
  · intro hlink
    obtain ⟨hcan, rfl, rfl⟩ := link_eq_ok hlink
    rw [h.displaced_eq_filter]
    exact ⟨hcan, rfl, rfl⟩
  · rintro ⟨hcan, rfl, rfl⟩
    rw [withLink, ← h.displaced_eq_filter, Graph.link, hcan]
    rfl

theorem link_eq_error_iff {e : GraphError} : g.link a b = .error e ↔ g.canLink a b = .error e := by
  unfold link
  cases g.canLink a b with
  | error e' => simp [bind, Except.bind]
  | ok _ => simp [bind, Except.bind]

/-- A link into another input makes no link legal or illegal. -/
theorem WellLinked.isLegal_withLink_iff (h : g.WellLinked)
    (hne : (Link.between c d).target ≠ l.target) :
    (g.withLink l).IsLegal c d ↔ g.IsLegal c d := by
  have hmem : .between c d ∈ (g.withLink l).links ↔ .between c d ∈ g.links := by
    rw [h.mem_withLink]
    constructor
    · rintro (heq | ⟨hold, -⟩)
      · exact absurd (congrArg Link.target heq) hne
      · exact hold
    · exact fun hold => .inr ⟨hold, hne⟩
  exact ⟨fun hc => ⟨hc.directions, hc.apart, hc.first, hc.second, fun hin => hc.new (hmem.mpr hin)⟩,
    fun hc => ⟨hc.directions, hc.apart, hc.first, hc.second, fun hin => hc.new (hmem.mp hin)⟩⟩

/-- Two links into different inputs that can both be made can be made one after the other, in either
order and with one result. -/
theorem WellLinked.link_diamond (h : g.WellLinked) {gl gm : Graph α} (hl : g.link a b = .ok (l, gl))
    (hm : g.link c d = .ok (m, gm)) (hne : m.target ≠ l.target) :
    ∃ g', gl.link c d = .ok (m, g') ∧ gm.link a b = .ok (l, g') := by
  have hgl := h.link hl
  have hgm := h.link hm
  obtain ⟨hab, rfl, rfl⟩ := h.link_eq_ok_iff.mp hl
  obtain ⟨hcd, rfl, rfl⟩ := h.link_eq_ok_iff.mp hm
  refine ⟨_, hgl.link_eq_ok_iff.mpr ⟨(h.isLegal_withLink_iff hne).mpr hcd, rfl, rfl⟩, ?_⟩
  refine hgm.link_eq_ok_iff.mpr ⟨(h.isLegal_withLink_iff hne.symm).mpr hab, rfl, ?_⟩
  exact h.withLink_comm hgl hgm hne

/-- Of two links into different inputs that were made one after the other, the second could have been
made first. -/
theorem WellLinked.link_swap (h : g.WellLinked) {gl : Graph α} (hl : g.link a b = .ok (l, gl))
    (hm : gl.link c d = .ok (m, g')) (hne : m.target ≠ l.target) :
    ∃ gm, g.link c d = .ok (m, gm) ∧ gm.link a b = .ok (l, g') := by
  have hlegal : g.IsLegal c d ∧ m = .between c d := by
    obtain ⟨hcd, rfl, -⟩ := (h.link hl).link_eq_ok_iff.mp hm
    obtain ⟨-, -, rfl⟩ := h.link_eq_ok_iff.mp hl
    exact ⟨(h.isLegal_withLink_iff hne).mp hcd, rfl⟩
  have hfirst := h.link_eq_ok_iff.mpr ⟨hlegal.1, hlegal.2, rfl⟩
  obtain ⟨g'', hsecond, hboth⟩ := h.link_diamond hl hfirst hne
  rw [hm, Except.ok.injEq, Prod.mk.injEq] at hsecond
  exact ⟨_, hfirst, hsecond.2 ▸ hboth⟩

/-- What linking does to any graph that calls can make, for any two pins. It succeeds exactly for legal
links. If it is refused, the question whether the pins may be linked has the same answer and the graph
stays as it is. If it succeeds, the link has replaced the one into its input and nothing else has
changed, the pins could have come in the other order, and so could links into other inputs. -/
theorem link_spec (h : g.Edited) (a b : Pin) :
    ((∃ l g', g.link a b = .ok (l, g')) ↔ g.IsLegal a b) ∧
    (∀ e, g.link a b = .error e → g.canLink a b = .error e ∧ g.apply (.link a b) = g) ∧
    (∀ l gl, g.link a b = .ok (l, gl) →
      l = .between a b ∧ g.GainsLink gl l ∧ g.link b a = .ok (l, gl) ∧
      ∀ c d m, m.target ≠ l.target →
        (∀ gm, g.link c d = .ok (m, gm) →
          ∃ g', gl.link c d = .ok (m, g') ∧ gm.link a b = .ok (l, g')) ∧
        (∀ g', gl.link c d = .ok (m, g') →
          ∃ gm, g.link c d = .ok (m, gm) ∧ gm.link a b = .ok (l, g'))) := by
  have hlinks := h.wellLinked
  refine ⟨⟨?_, ?_⟩, ?_, ?_⟩
  · rintro ⟨l, g', hl⟩
    exact (hlinks.link_eq_ok_iff.mp hl).1
  · exact fun hlegal => ⟨_, _, hlinks.link_eq_ok_iff.mpr ⟨hlegal, rfl, rfl⟩⟩
  · intro e he
    exact ⟨link_eq_error_iff.mp he, by simp only [Graph.apply, he]⟩
  · intro l gl hl
    obtain ⟨hlegal, hbetween, hgl⟩ := hlinks.link_eq_ok_iff.mp hl
    have hother : g.link b a = .ok (l, gl) :=
      hlinks.link_eq_ok_iff.mpr
        ⟨hlegal.symm, hbetween.trans (Link.between_comm hlegal.directions), hgl⟩
    refine ⟨hbetween, hgl ▸ hlinks.gainsLink_withLink l, hother, fun c d m hne => ⟨?_, ?_⟩⟩
    · exact fun gm hm => hlinks.link_diamond hl hm hne
    · exact fun g' hm => hlinks.link_swap hl hm hne

/-- Three nodes of two inputs and one output each, and a link from the first to the second. -/
def chained : Graph Node :=
  let node := Node.foreign "probe" (some ⟨2, 1⟩)
  replay [.add node, .add node, .add node, .link (.output 1 0) (.input 2 0)]

/-- The third node takes the place of the first before the second one, whichever pin is named first,
and a link into another input of the second node makes no difference to that. A third input is
refused. -/
theorem link_spec_chained :
    chained.Edited ∧ chained.links = [.between (.output 1 0) (.input 2 0)] ∧
    (∃ gl, chained.link (.input 2 0) (.output 3 0) = .ok (.between (.output 3 0) (.input 2 0), gl) ∧
      chained.link (.output 3 0) (.input 2 0) = .ok (.between (.output 3 0) (.input 2 0), gl) ∧
      chained.GainsLink gl (.between (.output 3 0) (.input 2 0)) ∧
      ∃ gm g', chained.link (.output 1 0) (.input 2 1) =
          .ok (.between (.output 1 0) (.input 2 1), gm) ∧
        gl.link (.output 1 0) (.input 2 1) = .ok (.between (.output 1 0) (.input 2 1), g') ∧
        gm.link (.input 2 0) (.output 3 0) = .ok (.between (.output 3 0) (.input 2 0), g')) ∧
    ¬ chained.IsLegal (.output 1 0) (.input 2 2) := by
  have hedited : chained.Edited := edited_replay _
  have hlegal : ∀ a b, (∃ l g', chained.link a b = .ok (l, g')) ↔ chained.IsLegal a b := fun a b =>
    (link_spec hedited a b).1
  obtain ⟨gl, hl⟩ : ∃ gl, chained.link (.input 2 0) (.output 3 0) =
      .ok (.between (.output 3 0) (.input 2 0), gl) := ⟨_, rfl⟩
  obtain ⟨gm, hm⟩ : ∃ gm, chained.link (.output 1 0) (.input 2 1) =
      .ok (.between (.output 1 0) (.input 2 1), gm) := ⟨_, rfl⟩
  obtain ⟨-, hgains, hother, hcommutes⟩ := (link_spec hedited (.input 2 0) (.output 3 0)).2.2 _ _ hl
  obtain ⟨g', hfirst, hsecond⟩ := (hcommutes _ _ _ (by decide)).1 gm hm
  refine ⟨hedited, by decide, ⟨gl, hl, hother, hgains, gm, g', hm, hfirst, hsecond⟩, ?_⟩
  rw [← hlegal]
  rintro ⟨l, g', hok⟩
  exact absurd hok (by simp [show chained.link (.output 1 0) (.input 2 2) = .error _ from rfl])

end Graph

end NodeShader

import SearchQuery.Proofs.Rejection

namespace SearchQuery

open Text Cursor Category

-- When `u ++ r` is read as an element of the category, the group at `r` is opened while `d` other
-- ones are open. There is no limit: what comes before the group may nest as deep as it likes.
inductive Opens : Nat → Category → List Char → List Char → Prop
  | operandGroup :
    Opens d group u r → Opens d (operand op) u r
  | itemGroup :
    Opens d group u r → Opens d item u r
  | itemValue {op : Operator} :
    IsWord isKeyChar w → op.Longest (u ++ r) → Opens d (operand op) u r →
    Opens d item (w ++ (op.chars ++ u)) r
  | groupHere :
    Opens 0 group [] ('(' :: r)
  | groupInside :
    IsBlank b → Stops isBlank (u ++ r) → Opens d (sequence .group) u r →
    Opens (d + 1) group ('(' :: (b ++ u)) r
  | sequenceFirst :
    Opens d item u r → Opens d (sequence scope) u r
  | sequenceNext {i : Item} {j : Junction} :
    i.Found n u (m ++ (v ++ r)) → j.Found scope m (v ++ r) → Opens d (sequence scope) v r →
    Opens d (sequence scope) (u ++ (m ++ v)) r

-- Somewhere in `u`, before `r`, a level of nesting is missing.
def Refused (Fails : List Char → Expected → List Char → Prop) (u r : List Char) : Prop :=
  ∃ v t, u = v ++ t ∧ Fails v .shallowerNesting (t ++ r)

variable {n m d : Nat} {c : Category} {op : Operator} {o : Operand} {i : Item} {f : Fragment}
variable {scope : Scope} {x : Expected} {s t u v w r : List Char}
variable {F G : List Char → Expected → List Char → Prop}

namespace Refused

theorem of_fails (h : F u .shallowerNesting r) : Refused F u r :=
  ⟨u, [], by simp, h⟩

theorem append (h : Refused F u (w ++ r)) : Refused F (u ++ w) r :=
  have ⟨v, t, hu, hf⟩ := h
  ⟨v, t ++ w, by simp [hu], by simpa using hf⟩

theorem append₂ (h : Refused F u (w ++ (v ++ r))) : Refused F (u ++ (w ++ v)) r := by
  rw [← List.append_assoc] at h
  exact h.append

theorem behind (w : List Char) (h : Refused F u r)
    (hf : ∀ {v t}, v ++ t = u ++ r → F v .shallowerNesting t → G (w ++ v) .shallowerNesting t) :
    Refused G (w ++ u) r := by
  have ⟨v, t, hu, hv⟩ := h
  exact ⟨w ++ v, t, by simp [hu], hf (by simp [hu]) hv⟩

theorem behind₂ (h : Refused F u r)
    (hf : ∀ {v t}, v ++ t = u ++ r → F v .shallowerNesting t →
      G (w ++ (s ++ v)) .shallowerNesting t) : Refused G (w ++ (s ++ u)) r := by
  rw [← List.append_assoc]
  apply h.behind (w ++ s)
  intro v t he hv
  rw [List.append_assoc]
  exact hf he hv

theorem imp (h : Refused F u r)
    (hf : ∀ {v t}, v ++ t = u ++ r → F v .shallowerNesting t → G v .shallowerNesting t) :
    Refused G u r :=
  h.behind [] hf

end Refused

def isOpening (c : Char) : Bool :=
  c = '(' || c = '['

namespace Opens

theorem starts (h : Opens d group u r) : (u ++ r).head? = some '(' := by
  cases h <;> rfl

theorem counted (h : Opens d c u r) : d ≤ u.countP isOpening ∧ ∃ t, r = '(' :: t := by
  induction h
  case operandGroup hi => exact hi
  case itemGroup hi => exact hi
  case itemValue hi => exact ⟨by simp; omega, hi.2⟩
  case groupHere => exact ⟨Nat.zero_le _, _, rfl⟩
  case groupInside hi => exact ⟨by simp [isOpening]; omega, hi.2⟩
  case sequenceFirst hi => exact hi
  case sequenceNext hi => exact ⟨by simp; omega, hi.2⟩

theorem of_fails (h : Fails n c u x r) (hx : x = .shallowerNesting) : Opens n c u r := by
  induction h
  case operandGroup hi => exact .operandGroup (hi hx)
  case itemGroup hi => exact .itemGroup (hi hx)
  case itemValue hw hl _ hi => exact .itemValue hw hl (hi hx)
  case groupDeep => exact .groupHere
  case groupInside hb hs _ hi => exact .groupInside hb hs (hi hx)
  case sequenceFirst hi => exact .sequenceFirst (hi hx)
  case sequenceNext hf hj _ hi => exact .sequenceNext hf hj (hi hx)
  all_goals contradiction

end Opens

-- More levels do not change what is read with fewer of them.
theorem Operand.Found.mono (h : o.Found n op u r) (hn : n ≤ m) : o.Found m op u r :=
  { h with nesting := h.nesting.trans hn }

theorem Item.Found.mono (h : i.Found n u r) (hn : n ≤ m) : i.Found m u r :=
  { h with nesting := h.nesting.trans hn }

theorem Fragment.Found.mono (h : f.Found n scope u r) (hn : n ≤ m) : f.Found m scope u r :=
  { h with nesting := h.nesting.trans hn }

theorem Fragment.Grouped.mono (h : f.Grouped n u r) (hn : n ≤ m) : f.Grouped m u r :=
  have ⟨hw, hd, hs⟩ := grouped_iff.mp h
  grouped_iff.mpr ⟨hw, hd.trans hn, hs⟩

theorem Fails.mono (h : Fails n c u x r) (hx : x ≠ .shallowerNesting) (hn : n ≤ m) :
    Fails m c u x r := by
  induction h generalizing m
  case operandMissing h => exact .operandMissing h
  case operandPhrase h => exact .operandPhrase h
  case operandGroup h _ hi => exact .operandGroup h (hi hx hn)
  case itemMissing h => exact .itemMissing h
  case itemBlank h => exact .itemBlank h
  case itemPhrase h => exact .itemPhrase h
  case itemGroup h _ hi => exact .itemGroup h (hi hx hn)
  case itemValue hw hl _ hi => exact .itemValue hw hl (hi hx hn)
  case groupOpen h => exact .groupOpen h
  case groupDeep => contradiction
  case groupInside hb hs _ hi =>
    cases m
    case zero => omega
    case succ m => exact .groupInside hb hs (hi hx (by omega))
  case groupUnclosed hb hf =>
    cases m
    case zero => omega
    case succ m => exact .groupUnclosed hb (hf.mono (by omega))
  case sequenceFirst hi => exact .sequenceFirst (hi hx hn)
  case sequenceEnd hf hb₁ hw hb₂ hs he => exact .sequenceEnd (hf.mono hn) hb₁ hw hb₂ hs he
  case sequenceNext hf hj _ hi => exact .sequenceNext (hf.mono hn) hj (hi hx hn)

namespace Refused

theorem deep : Refused (Fails 0 group) ('(' :: u) r :=
  ⟨[], '(' :: u, rfl, .groupDeep⟩

theorem operandGroup (h : Refused (Fails n group) u r) (hp : (u ++ r).head? = some '(') :
    Refused (Fails n (operand op)) u r :=
  h.imp fun he hf => .operandGroup (he ▸ hp) hf

theorem itemGroup (h : Refused (Fails n group) u r) (hp : (u ++ r).head? = some '(') :
    Refused (Fails n item) u r :=
  h.imp fun he hf => .itemGroup (he ▸ hp) hf

theorem itemValue (h : Refused (Fails n (operand op)) u r) (hw : IsWord isKeyChar w)
    (hl : op.Longest (u ++ r)) : Refused (Fails n item) (w ++ (op.chars ++ u)) r :=
  h.behind₂ fun he hf => .itemValue hw (he ▸ hl) hf

theorem groupInside (h : Refused (Fails n (sequence .group)) u r) (hb : IsBlank b)
    (hs : Stops isBlank (u ++ r)) : Refused (Fails (n + 1) group) ('(' :: (b ++ u)) r :=
  h.behind ('(' :: b) fun he hf => .groupInside hb (he ▸ hs) hf

theorem sequenceFirst (h : Refused (Fails n item) u r) : Refused (Fails n (sequence scope)) u r :=
  h.imp fun _ hf => .sequenceFirst hf

theorem sequenceNext {j : Junction} (h : Refused (Fails n (sequence scope)) v r)
    (hi : i.Found n u (w ++ (v ++ r))) (hj : j.Found scope w (v ++ r)) :
    Refused (Fails n (sequence scope)) (u ++ (w ++ v)) r :=
  h.behind₂ fun he hf => .sequenceNext (he ▸ hi) (he ▸ hj) hf

end Refused

-- With fewer levels the group is read, or one of the groups in it has no level left.
theorem Fragment.Grouped.limit
    (ha : ∀ {k n w t}, f.Found k .group w t →
      f.Found n .group w t ∨ Refused (Fails n (sequence .group)) w t)
    (h : f.Grouped m u r) : f.Grouped n u r ∨ Refused (Fails n group) u r := by
  have ⟨k, b, w, _, hu, hb, hf⟩ := h
  subst hu
  cases n
  case zero => exact .inr .deep
  case succ n =>
    cases ha (n := n) hf
    case inl hf => exact .inl ⟨n, b, w, rfl, rfl, hb, hf⟩
    case inr hr =>
      have hs : Stops isBlank (w ++ [')'] ++ r) := by simpa using hf.stops
      have hr : Refused _ w ([')'] ++ r) := hr
      exact .inr <| hr.append.groupInside hb hs

mutual

theorem Operand.Found.limit {n m op u r} (o : Operand) (h : o.Found m op u r) :
    o.Found n op u r ∨ Refused (Fails n (operand op)) u r := by
  have ⟨hw, hn, hs, ht⟩ := h
  match o with
  | .atom _      => exact .inl ⟨hw, Nat.zero_le _, hs, ht⟩
  | .group inner =>
    have hg : inner.Grouped m u r := Fragment.grouped_iff.mpr ⟨hw, hn, hs⟩
    have ⟨v, hv⟩ := Enclosed.head hs
    cases hg.limit fun h => Fragment.Found.limit inner h
    case inl hg => exact .inl hg.operand
    case inr hg => exact .inr <| hg.operandGroup (by simp [hv])

theorem Item.Found.limit {n m u r} (i : Item) (h : i.Found m u r) :
    i.Found n u r ∨ Refused (Fails n item) u r := by
  have ⟨hw, hn, hs, ht⟩ := h
  match i with
  | .free _               => exact .inl ⟨hw, Nat.zero_le _, hs, ht⟩
  | .compare key op value =>
    have ⟨v, hu, hv⟩ := hs
    have hl := hw.2.longest hv (t := r)
    subst hu
    cases Operand.Found.limit value ⟨hw.2, hn, hv, ht⟩
    case inl ho => exact .inl ⟨hw, ho.nesting, hs, ht⟩
    case inr ho => exact .inr <| ho.itemValue hw.1 hl
  | .group inner          =>
    have hg : inner.Grouped m u r := Fragment.grouped_iff.mpr ⟨hw, hn, hs⟩
    have ⟨v, hv⟩ := Enclosed.head hs
    cases hg.limit fun h => Fragment.Found.limit inner h
    case inl hg => exact .inl hg.item
    case inr hg => exact .inr <| hg.itemGroup (by simp [hv])

theorem Fragment.Found.limit {n m scope u r} (f : Fragment) (h : f.Found m scope u r) :
    f.Found n scope u r ∨ Refused (Fails n (sequence scope)) u r := by
  match f with
  | .single i =>
    have ⟨w, b, hu, hi, hb, he⟩ := Fragment.found_single.mp h
    subst hu
    cases Item.Found.limit i hi
    case inl hi => exact .inl <| Fragment.found_single.mpr ⟨w, b, rfl, hi, hb, he⟩
    case inr hi => exact .inr <| hi.sequenceFirst.append
  | .join i j rest =>
    have ⟨w, s, v, hu, hi, hj, hf⟩ := Fragment.found_join.mp h
    subst hu
    cases Item.Found.limit i hi
    case inr hi => exact .inr <| hi.sequenceFirst.append₂
    case inl hi =>
      cases Fragment.Found.limit rest hf
      case inl hf => exact .inl <| Fragment.found_join.mpr ⟨w, s, v, rfl, hi, hj, hf⟩
      case inr hf => exact .inr <| hf.sequenceNext hi hj

end

-- Where a group is opened too deep for the levels there are, one of them has been missing by then.
theorem Opens.refused (h : Opens d c u r) (hn : n ≤ d) : Refused (Fails n c) u r := by
  induction h generalizing n
  case operandGroup h hi => exact (hi hn).operandGroup h.starts
  case itemGroup h hi => exact (hi hn).itemGroup h.starts
  case itemValue hw hl _ hi => exact (hi hn).itemValue hw hl
  case groupHere =>
    cases Nat.le_zero.mp hn
    exact .of_fails .groupDeep
  case groupInside hb hs _ hi =>
    cases n
    case zero => exact .deep
    case succ n => exact (hi (by omega)).groupInside hb hs
  case sequenceFirst hi => exact (hi hn).sequenceFirst
  case sequenceNext i _ hf hj _ hi =>
    cases Item.Found.limit i hf (n := n)
    case inl hf => exact (hi hn).sequenceNext hf hj
    case inr hr => exact hr.sequenceFirst.append₂

end SearchQuery

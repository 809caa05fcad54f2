import CurlCode.Proofs.Json.Meaning
import CurlCode.Proofs.Json.Strict

/-!
The texts that are read, and as what. A text is read if it spells a value whose containers nest
less deep than the limit and that stands for one (`parse?_eq_some_iff`). The value that is
read, written over lines, is read as itself (`parse?_pretty`).
-/
namespace CurlCode.Json

/-- A text that spells a value in bounds, which stands for this one. -/
def Means (s : String) (v : Json) : Prop :=
  ∃ w, Spells s w ∧ w.depth < nestingLimit ∧ w.meaning? = some v

namespace Reader

/-- From one state to another by these tokens. -/
def Reads (r : Reader) (ts : List Token) (r' : Reader) : Prop := ts.foldlM step r = some r'

theorem reads_cons {r r' : Reader} {t : Token} {ts : List Token} :
    Reads r (t :: ts) r' ↔ ∃ q, r.step t = some q ∧ Reads q ts r' := by
  simp [Reads, Option.bind_eq_some_iff]

theorem reads_single {r r' : Reader} {t : Token} : Reads r [t] r' ↔ r.step t = some r' := by
  simp [Reads]

theorem reads_append {r r' : Reader} {ts us : List Token} :
    Reads r (ts ++ us) r' ↔ ∃ q, Reads r ts q ∧ Reads q us r' := by
  simp [Reads, Option.bind_eq_some_iff]

/-! ### A value is read as what it stands for -/

theorem reads_leftBracket {stack : List Frame} {ts : List Token} {r : Reader} :
    Reads (.value stack) (.leftBracket :: ts) r ↔
      stack.length + 1 < nestingLimit ∧ Reads (.firstItem stack) ts r := by
  simp [reads_cons, step, readValue]

theorem reads_leftBrace {stack : List Frame} {ts : List Token} {r : Reader} :
    Reads (.value stack) (.leftBrace :: ts) r ↔
      stack.length + 1 < nestingLimit ∧ Reads (.firstKey stack) ts r := by
  simp [reads_cons, step, readValue]

theorem step_firstItem {t : Token} (ht : t ≠ .rightBracket) (stack : List Frame) :
    step (.firstItem stack) t = step (.value (.array [] :: stack)) t := by
  cases t <;> first | rfl | exact absurd rfl ht

theorem reads_firstItem {v : Json} {vs : List Json} {stack : List Frame} {ts : List Token}
    {r : Reader} : Reads (.firstItem stack) (itemTokens (v :: vs) ++ ts) r ↔
      Reads (.value (.array [] :: stack)) (itemTokens (v :: vs) ++ ts) r := by
  obtain ⟨t, us, htokens, ht⟩ := head_tokens v
  simp only [itemTokens, htokens, List.cons_append, reads_cons, step_firstItem ht]

/-! Where a value stands for nothing, or nests too deep for the place where it stands, the reader
stops within its tokens. -/

mutual

/-- A value is read, on containers that are open already, as what it stands for. -/
theorem reads_tokens : ∀ (v : Json) {stack : List Frame} {r : Reader},
    stack.length < nestingLimit → (Reads (.value stack) v.tokens r ↔
      stack.length + v.depth < nestingLimit ∧ ∃ u, v.meaning? = some u ∧ supply u stack = r)
  | .null, _, _, h | .bool _, _, _, h | .number _, _, _, h | .string _, _, _, h => by
    simp [tokens, reads_single, step, readValue, depth, meaning?, h]
  | .array [], _, _, _ => by
    simp [tokens, itemTokens, reads_leftBracket, reads_single, step, depth, itemsDepth, meaning?,
      itemsMeaning?]
  | .object [], _, _, _ => by
    simp [tokens, memberTokens, reads_leftBrace, reads_single, step, depth, membersDepth, meaning?,
      membersMeaning?, objectOf?]
  | .array (v :: vs), stack, r, _ => by
    have hclose (us : List Json) (q : Reader) :
        Reads (.afterItem (us.reverse ++ []) stack) [.rightBracket] q ↔
          supply (.array us) stack = q := by
      simp [reads_single, step]
    have hitems {q : Reader} := @reads_items (v :: vs) [] stack q (by simp)
    rw [tokens, reads_leftBracket, reads_firstItem, reads_append, depth, meaning?]
    constructor
    · rintro ⟨hopen, q, hq, hr⟩
      obtain ⟨hdepth, us, hus, rfl⟩ := (hitems hopen).1 hq
      exact ⟨by omega, .array us, by rw [hus, Option.map_some], (hclose us r).1 hr⟩
    · rintro ⟨hdepth, u, hu, hr⟩
      obtain ⟨us, hus, rfl⟩ := Option.map_eq_some_iff.1 hu
      have hopen : stack.length + 1 < nestingLimit := by omega
      exact ⟨hopen, _, (hitems hopen).2 ⟨by omega, us, hus, rfl⟩, (hclose us r).2 hr⟩
  | .object (m :: ms), stack, r, _ => by
    have hclose (ns : List Member) (q : Reader) :
        Reads (.afterMember (ns.reverse ++ []) stack) [.rightBrace] q ↔
          ∃ u, objectOf? ns = some u ∧ supply u stack = q := by
      simp [reads_single, step]
    have hfirst : Reads (.firstKey stack) (memberTokens (m :: ms) ++ [.rightBrace]) r ↔
        Reads (.nextKey [] stack) (memberTokens (m :: ms) ++ [.rightBrace]) r := Iff.rfl
    have hmembers {q : Reader} := @reads_members (m :: ms) [] stack q (by simp)
    rw [tokens, reads_leftBrace, hfirst, reads_append, depth, meaning?]
    constructor
    · rintro ⟨hopen, q, hq, hr⟩
      obtain ⟨hdepth, ns, hns, rfl⟩ := (hmembers hopen).1 hq
      obtain ⟨u, hu, hr⟩ := (hclose ns r).1 hr
      exact ⟨by omega, u, by rw [hns, Option.bind_some, hu], hr⟩
    · rintro ⟨hdepth, u, hu, hr⟩
      obtain ⟨ns, hns, hu⟩ := Option.bind_eq_some_iff.1 hu
      have hopen : stack.length + 1 < nestingLimit := by omega
      exact ⟨hopen, _, (hmembers hopen).2 ⟨by omega, ns, hns, rfl⟩, (hclose ns r).2 ⟨u, hu, hr⟩⟩

theorem reads_items : ∀ (vs : List Json) {items : List Json} {stack : List Frame} {r : Reader},
    vs ≠ [] → stack.length + 1 < nestingLimit →
      (Reads (.value (.array items :: stack)) (itemTokens vs) r ↔
        stack.length + 1 + itemsDepth vs < nestingLimit ∧
          ∃ us, itemsMeaning? vs = some us ∧ .afterItem (us.reverse ++ items) stack = r)
  | [], _, _, _, hne, _ => absurd rfl hne
  | [v], items, stack, r, _, h => by
    have hv := @reads_tokens v (.array items :: stack) r h
    simpa [itemTokens, itemsDepth, itemsMeaning?, Option.bind_eq_some_iff, supply] using hv
  | v :: w :: vs, items, stack, r, _, h => by
    have hv {q : Reader} := @reads_tokens v (.array items :: stack) q h
    have htokens : itemTokens (v :: w :: vs) = v.tokens ++ .comma :: itemTokens (w :: vs) := rfl
    have hcomma (u : Json) :
        Reads (.afterItem (u :: items) stack) (.comma :: itemTokens (w :: vs)) r ↔
          Reads (.value (.array (u :: items) :: stack)) (itemTokens (w :: vs)) r := Iff.rfl
    have hvs {u : Json} := @reads_items (w :: vs) (u :: items) stack r (by simp) h
    rw [htokens, reads_append, itemsDepth, itemsMeaning?]
    constructor
    · rintro ⟨q, hq, hr⟩
      obtain ⟨hdepth, u, hu, rfl⟩ := hv.1 hq
      obtain ⟨hdepths, us, hus, rfl⟩ := hvs.1 ((hcomma u).1 hr)
      rw [List.length_cons] at hdepth
      exact ⟨by omega, u :: us, by rw [hu, hus]; rfl, by simp⟩
    · rintro ⟨hdepth, us, hus, rfl⟩
      obtain ⟨u, hu, hus⟩ := Option.bind_eq_some_iff.1 hus
      obtain ⟨us', hus', rfl⟩ := Option.map_eq_some_iff.1 hus
      have hfirst := hv.2 ⟨by rw [List.length_cons]; omega, u, hu, rfl⟩
      exact ⟨_, hfirst, (hcomma u).2 (hvs.2 ⟨by omega, us', hus', by simp⟩)⟩

theorem reads_members : ∀ (ms : List Member) {members : List Member} {stack : List Frame}
    {r : Reader}, ms ≠ [] → stack.length + 1 < nestingLimit →
      (Reads (.nextKey members stack) (memberTokens ms) r ↔
        stack.length + 1 + membersDepth ms < nestingLimit ∧
          ∃ ns, membersMeaning? ms = some ns ∧ .afterMember (ns.reverse ++ members) stack = r)
  | [], _, _, _, hne, _ => absurd rfl hne
  | [(key, v)], members, stack, r, _, h => by
    have hv := @reads_tokens v (.object members key :: stack) r h
    have hkey : Reads (.nextKey members stack) (memberTokens [(key, v)]) r ↔
      Reads (.value (.object members key :: stack)) (v.tokens ++ []) r := Iff.rfl
    rw [List.append_nil] at hkey
    simpa [hkey, membersDepth, membersMeaning?, Option.bind_eq_some_iff, supply] using hv
  | (key, v) :: m :: ms, members, stack, r, _, h => by
    have hv {q : Reader} := @reads_tokens v (.object members key :: stack) q h
    have hkey : Reads (.nextKey members stack) (memberTokens ((key, v) :: m :: ms)) r ↔
      Reads (.value (.object members key :: stack))
        (v.tokens ++ .comma :: memberTokens (m :: ms)) r := Iff.rfl
    have hcomma (u : Json) : Reads (.afterMember ((key, u) :: members) stack)
        (.comma :: memberTokens (m :: ms)) r ↔
          Reads (.nextKey ((key, u) :: members) stack) (memberTokens (m :: ms)) r := Iff.rfl
    have hms {u : Json} := @reads_members (m :: ms) ((key, u) :: members) stack r (by simp) h
    rw [hkey, reads_append, membersDepth, membersMeaning?]
    constructor
    · rintro ⟨q, hq, hr⟩
      obtain ⟨hdepth, u, hu, rfl⟩ := hv.1 hq
      obtain ⟨hdepths, ns, hns, rfl⟩ := hms.1 ((hcomma u).1 hr)
      rw [List.length_cons] at hdepth
      exact ⟨by omega, (key, u) :: ns, by rw [hu, hns]; rfl, by simp⟩
    · rintro ⟨hdepth, ns, hns, rfl⟩
      obtain ⟨u, hu, hns⟩ := Option.bind_eq_some_iff.1 hns
      obtain ⟨ns', hns', rfl⟩ := Option.map_eq_some_iff.1 hns
      have hfirst := hv.2 ⟨by rw [List.length_cons]; omega, u, hu, rfl⟩
      exact ⟨_, hfirst, (hcomma u).2 (hms.2 ⟨by omega, ns', hns', by simp⟩)⟩

end

/-! ### What is read is spelled by a value -/

/-- Containers of one kind, whatever they hold. -/
inductive SameFrame : Frame → Frame → Prop
  | array (items items' : List Json) : SameFrame (.array items) (.array items')
  | object (members members' : List Member) (key key' : String) :
    SameFrame (.object members key) (.object members' key')

abbrev SameFrames : List Frame → List Frame → Prop := List.Forall₂ SameFrame

/-- States that wait for the same tokens. -/
inductive SamePlace : Reader → Reader → Prop
  | value {s s' : List Frame} (h : SameFrames s s') : SamePlace (.value s) (.value s')
  | firstItem {s s' : List Frame} (h : SameFrames s s') : SamePlace (.firstItem s) (.firstItem s')
  | afterItem {s s' : List Frame} (items items' : List Json) (h : SameFrames s s') :
    SamePlace (.afterItem items s) (.afterItem items' s')
  | firstKey {s s' : List Frame} (h : SameFrames s s') : SamePlace (.firstKey s) (.firstKey s')
  | nextKey {s s' : List Frame} (members members' : List Member) (h : SameFrames s s') :
    SamePlace (.nextKey members s) (.nextKey members' s')
  | colon {s s' : List Frame} (members members' : List Member) (key key' : String)
    (h : SameFrames s s') : SamePlace (.colon members key s) (.colon members' key' s')
  | afterMember {s s' : List Frame} (members members' : List Member) (h : SameFrames s s') :
    SamePlace (.afterMember members s) (.afterMember members' s')
  | done (v v' : Json) : SamePlace (.done v) (.done v')

theorem samePlace_supply (v v' : Json) {s s' : List Frame} (h : SameFrames s s') :
    SamePlace (supply v s) (supply v' s') := by
  cases h with
  | nil => exact .done v v'
  | cons hframe h =>
    cases hframe with
    | array items items' => exact .afterItem _ _ h
    | object members members' key key' => exact .afterMember _ _ h

theorem samePlace_value {s s' : List Frame} (h : SameFrames s s') {t : Token} {r' : Reader}
    (hstep : step (.value s') t = some r') :
    ∃ r, strictStep (.value s) t = some r ∧ SamePlace r r' := by
  cases t with
  | null | bool | number | string =>
    obtain rfl := Option.some.inj hstep
    exact ⟨_, rfl, samePlace_supply _ _ h⟩
  | leftBracket =>
    obtain ⟨-, hr⟩ := Option.ite_none_right_eq_some.1 hstep
    exact ⟨_, rfl, Option.some.inj hr ▸ .firstItem h⟩
  | leftBrace =>
    obtain ⟨-, hr⟩ := Option.ite_none_right_eq_some.1 hstep
    exact ⟨_, rfl, Option.some.inj hr ▸ .firstKey h⟩
  | rightBracket | rightBrace | colon | comma => cases hstep

/-- Where a token is read, the grammar allows it. -/
theorem SamePlace.step {q r r' : Reader} (h : SamePlace q r) {t : Token}
    (hstep : r.step t = some r') : ∃ q', q.strictStep t = some q' ∧ SamePlace q' r' := by
  -- the readers differ in opening brackets and in the brace that closes an object
  cases h with
  | value h => exact samePlace_value h hstep
  | firstItem h =>
    by_cases ht : t = .rightBracket
    · subst ht
      obtain rfl := Option.some.inj hstep
      exact ⟨_, rfl, samePlace_supply _ _ h⟩
    · rw [step_firstItem ht] at hstep
      rw [strictStep_firstItem ht]
      exact samePlace_value (.cons (.array [] []) h) hstep
  | afterItem items items' h =>
    cases t with
    | comma =>
      obtain rfl := Option.some.inj hstep
      exact ⟨_, rfl, .value (.cons (.array _ _) h)⟩
    | rightBracket =>
      obtain rfl := Option.some.inj hstep
      exact ⟨_, rfl, samePlace_supply _ _ h⟩
    | _ => cases hstep
  | firstKey h =>
    cases t with
    | rightBrace =>
      obtain rfl := Option.some.inj hstep
      exact ⟨_, rfl, samePlace_supply _ _ h⟩
    | string key =>
      obtain rfl := Option.some.inj hstep
      exact ⟨_, rfl, .colon _ _ _ _ h⟩
    | _ => cases hstep
  | nextKey members members' h =>
    cases t with
    | string key =>
      obtain rfl := Option.some.inj hstep
      exact ⟨_, rfl, .colon _ _ _ _ h⟩
    | _ => cases hstep
  | colon members members' key key' h =>
    cases t with
    | colon =>
      obtain rfl := Option.some.inj hstep
      exact ⟨_, rfl, .value (.cons (.object _ _ _ _) h)⟩
    | _ => cases hstep
  | afterMember members members' h =>
    cases t with
    | comma =>
      obtain rfl := Option.some.inj hstep
      exact ⟨_, rfl, .nextKey _ _ h⟩
    | rightBrace =>
      obtain ⟨v, -, rfl⟩ := Option.map_eq_some_iff.1 hstep
      exact ⟨_, rfl, samePlace_supply _ v h⟩
    | _ => cases hstep
  | done v v' => cases hstep

theorem SamePlace.run {q r r' : Reader} (h : SamePlace q r) {ts : List Token}
    (hreads : Reads r ts r') : ∃ q', Run q ts q' ∧ SamePlace q' r' := by
  induction ts generalizing q r with
  | nil =>
    obtain rfl := Option.some.inj hreads
    exact ⟨q, rfl, h⟩
  | cons t ts ih =>
    obtain ⟨next, hnext, hreads⟩ := reads_cons.1 hreads
    obtain ⟨q', hq', h'⟩ := h.step hnext
    obtain ⟨q'', hrun, h''⟩ := ih h' hreads
    exact ⟨q'', (Run.single hq').append hrun, h''⟩

theorem exists_tokens {ts : List Token} {v : Json} (h : Reads (.value []) ts (.done v)) :
    ∃ w : Json, ts = w.tokens := by
  obtain ⟨q, hrun, hplace⟩ := (SamePlace.value .nil).run h
  cases hplace with
  | done w =>
    have hstart : Took [] (.value []) := rfl
    exact ⟨w, took_run hstart hrun⟩

theorem reads_done_iff {ts : List Token} {v : Json} : Reads (.value []) ts (.done v) ↔
    ∃ w : Json, ts = w.tokens ∧ w.depth < nestingLimit ∧ w.meaning? = some v := by
  have htokens (w : Json) : Reads (.value []) w.tokens (.done v) ↔
      w.depth < nestingLimit ∧ w.meaning? = some v := by
    simpa [supply] using @reads_tokens w [] (.done v) (by decide)
  constructor
  · intro h
    obtain ⟨w, rfl⟩ := exists_tokens h
    exact ⟨w, rfl, (htokens w).1 h⟩
  · rintro ⟨w, rfl, h⟩
    exact (htokens w).2 h

end Reader

theorem ofTokens?_eq_some_iff {ts : List Token} {v : Json} :
    ofTokens? ts = some v ↔ Reader.Reads (.value []) ts (.done v) := by
  rw [ofTokens?, Reader.Reads]
  split
  · next u h => simp [h]
  · next h =>
    simp only [reduceCtorEq, false_iff]
    exact h v

theorem parse?_eq_some_iff {s : String} {v : Json} : parse? s = some v ↔ Means s v := by
  simp only [parse?, Option.bind_eq_some_iff, ofTokens?_eq_some_iff, Reader.reads_done_iff]
  constructor
  · rintro ⟨ts, hts, w, rfl, h⟩
    exact ⟨w, hts, h⟩
  · rintro ⟨w, hw, h⟩
    exact ⟨w.tokens, hw, w, rfl, h⟩

/-- A value that is read, written over lines, is read as itself. -/
theorem parse?_pretty {s : String} {v : Json} (h : parse? s = some v) :
    parse? v.pretty = some v := by
  obtain ⟨w, -, hlimit, hmeaning⟩ := parse?_eq_some_iff.1 h
  obtain ⟨hself, hdepth⟩ := meaning?_meaning hmeaning
  exact parse?_eq_some_iff.2 ⟨v, spells_pretty v, Nat.lt_of_le_of_lt hdepth hlimit, hself⟩

end CurlCode.Json

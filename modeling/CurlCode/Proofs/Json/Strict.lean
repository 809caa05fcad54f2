import CurlCode.Json.Reader
import CurlCode.Proofs.Json.Spelling

/-!
A reader of JSON by its grammar alone: no container nests too deep, an object is an object
whatever its first key, and all its members count. It reads exactly the texts that spell a
value (`strict?_eq_some_iff`).
-/
namespace CurlCode.Json

namespace Reader

/-- One token, with the exceptions of `step` taken out. -/
def strictStep (r : Reader) (t : Token) : Option Reader :=
  match r, t with
  | .value stack, .leftBracket => some (.firstItem stack)
  | .value stack, .leftBrace => some (.firstKey stack)
  | .firstItem stack, .leftBracket => some (.firstItem (.array [] :: stack))
  | .firstItem stack, .leftBrace => some (.firstKey (.array [] :: stack))
  | .afterMember members stack, .rightBrace => some (supply (.object members.reverse) stack)
  | r, t => r.step t

end Reader

def strict? (s : String) : Option Json :=
  match (Token.ofText? s.toList).bind fun ts => ts.foldlM Reader.strictStep (.value []) with
  | some (.done v) => some v
  | _ => none

namespace Reader

/-! ### What spells a value is read -/

/-- From one state to another by these tokens. -/
def Run (r : Reader) (ts : List Token) (r' : Reader) : Prop := ts.foldlM strictStep r = some r'

theorem Run.single {r r' : Reader} {t : Token} (h : strictStep r t = some r') : Run r [t] r' := by
  simp [Run, h]

theorem Run.append {r r' r'' : Reader} {ts ts' : List Token} (h : Run r ts r')
    (h' : Run r' ts' r'') : Run r (ts ++ ts') r'' := by
  rw [Run, List.foldlM_append, h]
  exact h'

theorem head_tokens (v : Json) : ∃ t ts, v.tokens = t :: ts ∧ t ≠ .rightBracket := by
  cases v <;> exact ⟨_, _, rfl, by simp⟩

/-- The first item of an array is a value like the next ones. -/
theorem strictStep_firstItem {t : Token} (ht : t ≠ .rightBracket) (stack : List Frame) :
    strictStep (.firstItem stack) t = strictStep (.value (.array [] :: stack)) t := by
  cases t <;> first | rfl | exact absurd rfl ht

theorem Run.firstItem {v : Json} {ts : List Token} {stack : List Frame} {r : Reader}
    (h : Run (.value (.array [] :: stack)) (v.tokens ++ ts) r) :
    Run (.firstItem stack) (v.tokens ++ ts) r := by
  obtain ⟨t, us, htokens, ht⟩ := head_tokens v
  rw [Run, htokens, List.cons_append, List.foldlM_cons] at h ⊢
  rwa [strictStep_firstItem ht]

mutual

theorem run_tokens : ∀ (v : Json) (stack : List Frame),
    Run (.value stack) v.tokens (supply v stack)
  | .null, _ | .bool _, _ | .number _, _ | .string _, _ | .array [], _ | .object [], _ => rfl
  | .array (v :: vs), stack => by
    have hopen : Run (.value stack) [.leftBracket] (.firstItem stack) := rfl
    have hitems := Run.firstItem (run_items (v :: vs) [] stack (by simp))
    refine hopen.append (hitems.append (Run.single ?_))
    simp [strictStep, step]
  | .object (m :: ms), stack => by
    have hopen : Run (.value stack) [.leftBrace] (.firstKey stack) := rfl
    have hmembers : Run (.firstKey stack) (memberTokens (m :: ms)) _ :=
      run_members (m :: ms) [] stack (by simp)
    refine hopen.append (hmembers.append (Run.single ?_))
    simp [strictStep]

theorem run_items : ∀ (vs items : List Json) (stack : List Frame), vs ≠ [] →
    Run (.value (.array items :: stack)) (itemTokens vs) (.afterItem (vs.reverse ++ items) stack)
  | [], _, _, h => absurd rfl h
  | [v], items, stack, _ => (run_tokens v (.array items :: stack)).append rfl
  | v :: w :: vs, items, stack, _ => by
    have hv := run_tokens v (.array items :: stack)
    have hcomma : Run (.afterItem (v :: items) stack) [.comma]
      (.value (.array (v :: items) :: stack)) := rfl
    have h := hv.append (hcomma.append (run_items (w :: vs) (v :: items) stack (by simp)))
    simpa [itemTokens] using h

theorem run_members : ∀ (ms members : List Member) (stack : List Frame), ms ≠ [] →
    Run (.nextKey members stack) (memberTokens ms) (.afterMember (ms.reverse ++ members) stack)
  | [], _, _, h => absurd rfl h
  | (key, v) :: ms, members, stack, _ => by
    have hkey : Run (.nextKey members stack) [.string key, .colon]
      (.value (.object members key :: stack)) := rfl
    have hv := hkey.append (run_tokens v (.object members key :: stack))
    cases ms with
    | nil => exact hv.append rfl
    | cons m ms =>
      have hcomma : Run (.afterMember ((key, v) :: members) stack) [.comma]
        (.nextKey ((key, v) :: members) stack) := rfl
      have hms := run_members (m :: ms) ((key, v) :: members) stack (by simp)
      simpa [memberTokens] using hv.append (hcomma.append hms)

end

/-! ### What is read spells a value -/

/-- Items with a comma after each. -/
def itemsOpen (vs : List Json) : List Token := vs.flatMap fun v => v.tokens ++ [.comma]

def membersOpen (ms : List Member) : List Token :=
  ms.flatMap fun m => .string m.1 :: .colon :: (m.2.tokens ++ [.comma])

theorem itemTokens_concat (vs : List Json) (v : Json) :
    itemTokens (vs ++ [v]) = itemsOpen vs ++ v.tokens := by
  induction vs with
  | nil => simp [itemTokens, itemsOpen]
  | cons w vs ih => simp [itemTokens, ih, itemsOpen]

theorem memberTokens_concat (ms : List Member) (key : String) (v : Json) :
    memberTokens (ms ++ [(key, v)]) = membersOpen ms ++ (.string key :: .colon :: v.tokens) := by
  induction ms with
  | nil => simp [memberTokens, membersOpen]
  | cons m ms ih =>
    obtain ⟨key', w⟩ := m
    simp [memberTokens, ih, membersOpen]

/-- The tokens that an open container has taken. -/
def frameTokens : Frame → List Token
  | .array items => .leftBracket :: itemsOpen items.reverse
  | .object members key => .leftBrace :: (membersOpen members.reverse ++ [.string key, .colon])

def stackTokens : List Frame → List Token
  | [] => []
  | f :: stack => stackTokens stack ++ frameTokens f

/-- The reader stands where these tokens lead. -/
def Took (ts : List Token) : Reader → Prop
  | .value stack => ts = stackTokens stack
  | .firstItem stack => ts = stackTokens stack ++ [.leftBracket]
  | .afterItem items stack =>
    items ≠ [] ∧ ts = stackTokens stack ++ .leftBracket :: itemTokens items.reverse
  | .firstKey stack => ts = stackTokens stack ++ [.leftBrace]
  | .nextKey members stack => ts = stackTokens stack ++ .leftBrace :: membersOpen members.reverse
  | .colon members key stack =>
    ts = stackTokens stack ++ .leftBrace :: (membersOpen members.reverse ++ [.string key])
  | .afterMember members stack =>
    members ≠ [] ∧ ts = stackTokens stack ++ .leftBrace :: memberTokens members.reverse
  | .done v => ts = v.tokens

theorem took_supply (v : Json) (stack : List Frame) :
    Took (stackTokens stack ++ v.tokens) (supply v stack) := by
  cases stack with
  | nil => rfl
  | cons f stack =>
    cases f with
    | array items =>
      simp [supply, Took, stackTokens, frameTokens, itemTokens_concat]
    | object members key =>
      simp [supply, Took, stackTokens, frameTokens, memberTokens_concat]

/-- A token where a value may begin. -/
theorem took_value {t : Token} {stack : List Frame} {r : Reader}
    (h : strictStep (.value stack) t = some r) : Took (stackTokens stack ++ [t]) r := by
  cases t with
  | null | bool | number | string =>
    obtain rfl := Option.some.inj h
    exact took_supply _ stack
  | leftBracket | leftBrace =>
    obtain rfl := Option.some.inj h
    rfl
  | rightBracket | rightBrace | colon | comma => simp [strictStep, step, readValue] at h

theorem itemTokens_comma {vs : List Json} (h : vs ≠ []) :
    itemTokens vs ++ [.comma] = itemsOpen vs := by
  obtain rfl | ⟨ws, w, rfl⟩ := List.eq_nil_or_concat vs
  · exact absurd rfl h
  · rw [List.concat_eq_append, itemTokens_concat]
    simp [itemsOpen]

theorem memberTokens_comma {ms : List Member} (h : ms ≠ []) :
    memberTokens ms ++ [.comma] = membersOpen ms := by
  obtain rfl | ⟨ns, n, rfl⟩ := List.eq_nil_or_concat ms
  · exact absurd rfl h
  · rw [List.concat_eq_append, memberTokens_concat]
    simp [membersOpen]

theorem Took.strictStep {ts : List Token} {r r' : Reader} {t : Token} (hr : Took ts r)
    (h : r.strictStep t = some r') : Took (ts ++ [t]) r' := by
  cases r with
  | value stack => exact hr ▸ took_value h
  | firstItem stack =>
    by_cases ht : t = .rightBracket
    · subst ht
      obtain rfl := Option.some.inj h
      simpa [show ts = _ from hr, tokens, itemTokens] using took_supply (.array []) stack
    · rw [strictStep_firstItem ht] at h
      simpa [show ts = _ from hr, stackTokens, frameTokens, itemsOpen] using took_value h
  | afterItem items stack =>
    obtain ⟨hne, rfl⟩ := hr
    cases t with
    | comma =>
      obtain rfl := Option.some.inj h
      simp [Took, stackTokens, frameTokens, ← itemTokens_comma (List.reverse_ne_nil_iff.2 hne)]
    | rightBracket =>
      obtain rfl := Option.some.inj h
      simpa [tokens] using took_supply (.array items.reverse) stack
    | _ => cases h
  | firstKey stack =>
    cases t with
    | rightBrace =>
      obtain rfl := Option.some.inj h
      simpa [show ts = _ from hr, tokens, memberTokens] using took_supply (.object []) stack
    | string key =>
      obtain rfl := Option.some.inj h
      simp [Took, show ts = _ from hr, membersOpen]
    | _ => cases h
  | nextKey members stack =>
    cases t with
    | string key =>
      obtain rfl := Option.some.inj h
      simp [Took, show ts = _ from hr]
    | _ => cases h
  | colon members key stack =>
    cases t with
    | colon =>
      obtain rfl := Option.some.inj h
      simp [Took, show ts = _ from hr, stackTokens, frameTokens]
    | _ => cases h
  | afterMember members stack =>
    obtain ⟨hne, rfl⟩ := hr
    cases t with
    | comma =>
      obtain rfl := Option.some.inj h
      simp [Took, ← memberTokens_comma (List.reverse_ne_nil_iff.2 hne)]
    | rightBrace =>
      obtain rfl := Option.some.inj h
      simpa [tokens] using took_supply (.object members.reverse) stack
    | _ => cases h
  | done v => cases h

theorem took_run {ts us : List Token} {r r' : Reader} (hr : Took ts r) (h : Run r us r') :
    Took (ts ++ us) r' := by
  induction us generalizing ts r with
  | nil =>
    obtain rfl := Option.some.inj h
    simpa using hr
  | cons t us ih =>
    rw [Run, List.foldlM_cons, Option.bind_eq_bind, Option.bind_eq_some_iff] at h
    obtain ⟨next, hnext, h⟩ := h
    simpa using ih (hr.strictStep hnext) h

end Reader

/-- The strict reader reads the texts that spell a value, and no others. -/
theorem strict?_eq_some_iff (s : String) (v : Json) : strict? s = some v ↔ Spells s v := by
  constructor
  · intro h
    rw [strict?] at h
    split at h
    · next w hrun =>
      obtain rfl := Option.some.inj h
      obtain ⟨ts, htokens, hrun⟩ := Option.bind_eq_some_iff.1 hrun
      have htook : Reader.Took ([] ++ ts) (.done w) := Reader.took_run (r := .value []) rfl hrun
      exact htokens.trans (congrArg some htook)
    · cases h
  · intro h
    have hrun : v.tokens.foldlM Reader.strictStep (.value []) = some (.done v) :=
      Reader.run_tokens v []
    rw [strict?, h, Option.bind_some, hrun]

end CurlCode.Json

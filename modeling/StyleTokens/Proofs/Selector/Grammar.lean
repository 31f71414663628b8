import StyleTokens.Proofs.Selector.ReadBack
import StyleTokens.Proofs.Structure.Balanced

/-!
# The grammar of groups

A group is a run of parts of one or two tokens.  The reader knows a name by its kind, but
`*`, `.` and the combinators by the one character that a token holds, whatever its kind.
So it takes a string or an address of this character for a sign, and a name of it for a
combinator.  Both readings are grammars here, which differ in nothing else.
-/

namespace StyleTokens

/-!
## Component values
-/

namespace Css

/-- A component value of a style sheet: a token that was cut from a text, or a construct
that was read. -/
inductive IsValue : Token -> Prop where
  | single {t : Token} (h : Emitted t) : IsValue t
  | construct (c : Construct) (values : List Token) (l : Location) : IsValue (c.token values l)

theorem isValue_parseRun (n : Nesting) (stop : Predicate) {ts : List Token}
    (h : forall t, t ∈ ts -> Emitted t) :
    forall v, v ∈ (parseRun n stop ts).value -> IsValue v := by
  induction ts using parseRun_induction n stop with
  | nil =>
      rw [parseRun_of_standsAt (standsAt_nil stop)]
      exact List.forall_mem_nil _
  | stopped t ts ht =>
      rw [parseRun_of_standsAt (standsAt_cons ts ht)]
      exact List.forall_mem_nil _
  | value t ts ht ih =>
      rw [parseRun_cons ts ht]
      refine List.forall_mem_cons.mpr ⟨?_, ?_⟩
      · cases ho : t.opens? with
        | none =>
            rw [readComponent_of_opens_none n ts ho]
            exact .single (h t List.mem_cons_self)
        | some c =>
            rw [readComponent_of_opens n ts ho]
            exact .construct c _ _
      · apply ih
        intro u hu
        exact h u (List.mem_cons_of_mem t ((readComponent_rest_suffix n t ts).mem hu))

def signKinds : List Kind := [ident, hash, colon, delim]

namespace IsValue

variable {t : Token} {k : Kind}

theorem of_is (h : IsValue t) (hk : k ∈ signKinds) (his : t.is k = true) :
    Emitted t ∧ t.kind = k := by
  have hmade : forall k, k ∈ signKinds -> constructKinds.all (fun made => !k.same made) = true := by
    decide
  have hcontent : forall k, k ∈ signKinds -> k ∈ comment :: contentKinds := by
    simp [signKinds, contentKinds, nameKinds, bareKinds]
  cases h with
  | single h => exact ⟨h, h.kind_of_is (hcontent k hk) his⟩
  | construct c values l =>
      rw [not_is_construct c values l (hmade k hk)] at his
      cases his

theorem not_isBlank (h : IsValue t) (hk : k ∈ signKinds) (his : t.is k = true) :
    t.isBlank = false := by
  have hsolid : forall k, k ∈ signKinds -> k.blank = false := by decide
  rw [Token.isBlank, (h.of_is hk his).2]
  exact hsolid k hk

theorem not_is (h : IsValue t) (hk : k ∈ signKinds) (his : t.is k = true) {k' : Kind}
    (hne : k.same k' = false) : t.is k' = false := by
  rw [Token.is, (h.of_is hk his).2]
  exact hne

theorem payload_of_name (h : IsValue t) (hk : k ∈ [ident, hash]) (his : t.is k = true) :
    t.payload = .text t.text := by
  have hsigns : forall k, k ∈ [ident, hash] -> k ∈ signKinds ∧ k ∈ decodedKinds := by
    simp [signKinds, decodedKinds, nameKinds]
  obtain ⟨hemitted, hkind⟩ := h.of_is (hsigns k hk).1 his
  obtain ⟨cs, l, heq, -, -⟩ := hemitted.of_decoded (hkind ▸ (hsigns k hk).2)
  rw [heq]
  rfl

theorem payload_of_colon (h : IsValue t) (his : t.is colon = true) : t.payload = .none :=
  ((h.of_is (by simp [signKinds]) his).1.of_bare (k := colon) (by simp [bareKinds]) his).2

end IsValue

end Css

/-!
## The grammar
-/

namespace Simple

variable {r : SelectorRegistry}

theorem isCombinatorName_lower (name : String) :
    isCombinatorName (Text.lower name) = isCombinatorName name := by
  have hmark : forall d : Char, d.isAlpha = false -> forall c, (c.toLower == d) = (c == d) := by
    intro d hd c
    rw [Bool.eq_iff_iff, beq_iff_eq, beq_iff_eq]
    exact Text.toLower_eq_iff hd
  have htext : (Text.lower name).toList = name.toList.map Char.toLower := String.toList_ofList
  simp only [isCombinatorName, isCombinator, Token.asChar?, Token.of, htext]
  rcases name.toList with _ | ⟨c, _ | ⟨d, cs⟩⟩
  · rfl
  · show (c.toLower == '>' || c.toLower == '+' || c.toLower == '~') = _
    rw [hmark '>' (by decide), hmark '+' (by decide), hmark '~' (by decide)]
  · rfl

theorem isCombinatorName_of_text {t : Token} (h : t.payload = .text t.text) :
    isCombinator t = isCombinatorName t.text := by
  simp only [isCombinatorName, isCombinator, Token.asChar?, h, Token.of]

/-- Tests for the token that a part of a group starts with. -/
structure Signs where
  type : Predicate
  identifier : Predicate
  universal : Predicate
  dot : Predicate

namespace Signs

def written : Signs where
  type := .ofKind Css.ident
  identifier := .ofKind Css.hash
  universal := fun t => Css.isDelim t '*'
  dot := fun t => Css.isDelim t '.'

def isNameless (t : Token) : Bool := !(t.isBlank || t.is Css.ident || t.is Css.hash)

/-- The tokens that the reader takes for them: a name must not be a combinator, and any
other token will do for a sign if it holds the character. -/
def byCharacter : Signs where
  type := fun t => t.is Css.ident && !isCombinator t
  identifier := fun t => t.is Css.hash && !isCombinator t
  universal := fun t => isNameless t && t.asChar? == some '*'
  dot := fun t => isNameless t && t.asChar? == some '.'

end Signs

/-- The tokens of one part, with the simple selector that they stand for. -/
inductive Part (signs : Signs) (r : SelectorRegistry) : List Token -> Simple -> Prop where
  | type {t : Token} (h : signs.type t = true) : Part signs r [t] (type (Text.lower t.text))
  | identifier {t : Token} (h : signs.identifier t = true) :
      Part signs r [t] (identifier t.text)
  | universal {t : Token} (h : signs.universal t = true) : Part signs r [t] universal
  | className {t u : Token} (h : signs.dot t = true) (hu : u.is Css.ident = true) :
      Part signs r [t, u] (className u.text)
  | pseudoClass {t u : Token} (h : t.is Css.colon = true) (hu : u.is Css.ident = true)
      (hname : r.hasPseudoClass (Text.lower u.text) = true) :
      Part signs r [t, u] (pseudoClass (Text.lower u.text))
  | function {t u : Token} {c : Call} {f : SelectorFunction} (h : t.is Css.colon = true)
      (hcall : u.asCall? = some c) (hf : r.function? (Text.lower c.name) = some f)
      (hprepared : f.prepare c.values = .ok ()) :
      Part signs r [t, u] (function ⟨Text.lower c.name, c.values, f⟩)

/-- A run of parts, with the simple selectors that they stand for in order. -/
inductive Compound (signs : Signs) (r : SelectorRegistry) :
    List Token -> List Simple -> Prop where
  | nil : Compound signs r [] []
  | cons {front rest : List Token} {s : Simple} {parts : List Simple}
      (hpart : Part signs r front s) (hrest : Compound signs r rest parts) :
      Compound signs r (front ++ rest) (s :: parts)

namespace Compound

variable {signs signs' : Signs} {ts : List Token} {parts : List Simple}

theorem imp (h : Compound signs r ts parts)
    (hpart : forall front s, (forall t, t ∈ front -> t ∈ ts) -> s ∈ parts ->
      Part signs r front s -> Part signs' r front s) : Compound signs' r ts parts := by
  induction h with
  | nil => exact .nil
  | @cons front rest s parts hfirst _ ih =>
      constructor
      · apply hpart front s
        · exact fun t ht => List.mem_append_left _ ht
        · exact List.mem_cons_self
        · exact hfirst
      · apply ih
        intro front' s' hfront' hs'
        apply hpart front' s'
        · exact fun t ht => List.mem_append_right _ (hfront' t ht)
        · exact List.mem_cons_of_mem s hs'

theorem exists_part_of_mem (h : Compound signs r ts parts) {t : Token} (ht : t ∈ ts) :
    exists front s, t ∈ front ∧ (forall u, u ∈ front -> u ∈ ts) ∧ Part signs r front s := by
  induction h with
  | nil => cases ht
  | @cons front rest s parts hfirst _ ih =>
      rcases List.mem_append.mp ht with hfront | hrest
      · exact ⟨front, s, hfront, fun u hu => List.mem_append_left _ hu, hfirst⟩
      · obtain ⟨front', s', hmem, hfront', hpart⟩ := ih hrest
        exact ⟨front', s', hmem, fun u hu => List.mem_append_right _ (hfront' u hu), hpart⟩

theorem exists_front_of_mem (h : Compound signs r ts parts) {s : Simple} (hs : s ∈ parts) :
    exists front, (forall t, t ∈ front -> t ∈ ts) ∧ Part signs r front s := by
  induction h with
  | nil => cases hs
  | @cons front rest s' parts hfirst _ ih =>
      rcases List.mem_cons.mp hs with rfl | hs
      · exact ⟨front, fun t ht => List.mem_append_left _ ht, hfirst⟩
      · obtain ⟨front', hfront', hpart⟩ := ih hs
        exact ⟨front', fun t ht => List.mem_append_right _ (hfront' t ht), hpart⟩

end Compound

/-!
## The reader
-/

theorem before_eq_ok {s : Simple} {rest : Except SelectorError (List Simple)}
    {group : List Simple} (h : s.before rest = .ok group) :
    exists others, rest = .ok others ∧ group = s :: others := by
  cases rest with
  | error e => cases h
  | ok others => exact ⟨others, rfl, (Except.ok.inj h).symm⟩

theorem part_of_readPseudo {signs : Signs} {t u : Token} {s : Simple}
    (ht : t.is Css.colon = true) (h : readPseudo r u = .ok s) : Part signs r [t, u] s := by
  simp only [readPseudo] at h
  split at h
  · rename_i his
    split at h
    · rename_i hname
      rw [← Except.ok.inj h]
      exact .pseudoClass ht his hname
    · cases h
  · split at h
    · rename_i c hcall
      simp only [readCall] at h
      split at h
      · cases h
      · rename_i f hf
        split at h
        · cases h
        · rename_i hprepared
          rw [← Except.ok.inj h]
          exact .function ht hcall hf hprepared
    · cases h

theorem part_of_readAll {t : Token} {ts : List Token} {group : List Simple}
    (h : readAll r (t :: ts) = .ok group) :
    exists front rest s others, t :: ts = front ++ rest ∧ rest.length ≤ ts.length ∧
      Part .byCharacter r front s ∧ readAll r rest = .ok others ∧ group = s :: others := by
  rw [readAll_cons] at h
  split at h
  · cases h
  · rename_i hfirst
    obtain ⟨hblank, hc⟩ := Bool.or_eq_false_iff.mp (by simpa using hfirst)
    split at h
    · rename_i his
      obtain ⟨others, hothers, rfl⟩ := before_eq_ok h
      have htype : Signs.byCharacter.type t = true := by simp [Signs.byCharacter, his, hc]
      exact ⟨[t], ts, _, others, rfl, Nat.le_refl _, .type htype, hothers, rfl⟩
    · rename_i hident
      split at h
      · rename_i his
        obtain ⟨others, hothers, rfl⟩ := before_eq_ok h
        have hidentifier : Signs.byCharacter.identifier t = true := by
          simp [Signs.byCharacter, his, hc]
        exact ⟨[t], ts, _, others, rfl, Nat.le_refl _, .identifier hidentifier, hothers, rfl⟩
      · rename_i hhash
        have hnameless : Signs.isNameless t = true := by
          simp [Signs.isNameless, hblank, hident, hhash]
        split at h
        · rename_i hstar
          obtain ⟨others, hothers, rfl⟩ := before_eq_ok h
          have huniversal : Signs.byCharacter.universal t = true := by
            simp [Signs.byCharacter, hnameless, hstar]
          exact ⟨[t], ts, _, others, rfl, Nat.le_refl _, .universal huniversal, hothers, rfl⟩
        · split at h
          · rename_i hpoint
            have hdot : Signs.byCharacter.dot t = true := by
              simp [Signs.byCharacter, hnameless, hpoint]
            split at h
            · rename_i u us
              split at h
              · rename_i hu
                obtain ⟨others, hothers, rfl⟩ := before_eq_ok h
                exact ⟨[t, u], us, _, others, rfl, Nat.le_succ _, .className hdot hu, hothers, rfl⟩
              · cases h
            · cases h
          · split at h
            · rename_i hcolon
              split at h
              · rename_i u us
                split at h
                · rename_i s hs
                  obtain ⟨others, hothers, rfl⟩ := before_eq_ok h
                  exact ⟨[t, u], us, s, others, rfl, Nat.le_succ _,
                    part_of_readPseudo hcolon hs, hothers, rfl⟩
                · cases h
              · cases h
            · cases h

theorem compound_of_readAll {ts : List Token} {parts : List Simple}
    (h : readAll r ts = .ok parts) : Compound .byCharacter r ts parts := by
  -- one or two tokens are read at a time, so the induction is on the length
  induction hlen : ts.length using Nat.strongRecOn generalizing ts parts with
  | ind len ih =>
      cases ts with
      | nil =>
          cases h
          exact .nil
      | cons t ts =>
          obtain ⟨front, rest, s, others, hsplit, hshort, hpart, hothers, rfl⟩ := part_of_readAll h
          rw [hsplit]
          apply Compound.cons hpart
          exact ih rest.length (by rw [← hlen]; exact Nat.lt_succ_of_le hshort) hothers rfl

theorem isCombinator_of_asChar? {t : Token} {c : Char} (h : t.asChar? = some c)
    (hc : (c == '>' || c == '+' || c == '~') = false) : isCombinator t = false := by
  rw [isCombinator, h]
  exact hc

theorem asChar?_of_payload_none {t : Token} (h : t.payload = .none) : t.asChar? = none := by
  rw [Token.asChar?, h]

theorem asChar?_of_asCall? {t : Token} {c : Call} (h : t.asCall? = some c) :
    t.asChar? = none := by
  cases t with
  | mk kind payload location error =>
      cases payload with
      | call c => rfl
      | _ => cases h

theorem isNameless_iff {t : Token} :
    Signs.isNameless t = true ↔
      t.isBlank = false ∧ t.is Css.ident = false ∧ t.is Css.hash = false := by
  simp [Signs.isNameless, and_assoc]

theorem readAll_of_colon {t u : Token} {s : Simple} (ht : Css.IsValue t)
    (his : t.is Css.colon = true) (hread : readPseudo r u = .ok s) (us : List Token) :
    readAll r (t :: u :: us) = s.before (readAll r us) := by
  have hchar : t.asChar? = none := asChar?_of_payload_none (ht.payload_of_colon his)
  have hblank : t.isBlank = false := ht.not_isBlank (by simp [Css.signKinds]) his
  have hident : t.is Css.ident = false := ht.not_is (by simp [Css.signKinds]) his (by decide)
  have hhash : t.is Css.hash = false := ht.not_is (by simp [Css.signKinds]) his (by decide)
  have hc : isCombinator t = false := by rw [isCombinator, hchar]
  rw [readAll_cons, hblank, hc, hident, hhash, hchar, his]
  simp only [hread]
  rfl

theorem readPseudo_function {u : Token} {c : Call} {f : SelectorFunction} (hu : Css.IsValue u)
    (hcall : u.asCall? = some c) (hf : r.function? (Text.lower c.name) = some f)
    (hprepared : f.prepare c.values = .ok ()) :
    readPseudo r u = .ok (function ⟨Text.lower c.name, c.values, f⟩) := by
  have hident : u.is Css.ident = false := by
    rw [Bool.eq_false_iff]
    intro his
    rw [Token.asCall?, hu.payload_of_name (by simp) his] at hcall
    cases hcall
  simp only [readPseudo, hident, hcall, readCall, hf, hprepared]
  rfl

theorem Part.readAll_append {front : List Token} {s : Simple} (h : Part .byCharacter r front s)
    (hvalues : forall t, t ∈ front -> Css.IsValue t) (rest : List Token) :
    readAll r (front ++ rest) = s.before (readAll r rest) := by
  cases h with
  | @type t h =>
      obtain ⟨his, hc⟩ := Bool.and_eq_true_iff.mp h
      have hblank : t.isBlank = false :=
        (hvalues t List.mem_cons_self).not_isBlank (by simp [Css.signKinds]) his
      have hnot : isCombinator t = false := by simpa using hc
      rw [List.singleton_append, readAll_cons, hblank, hnot, his]
      rfl
  | @identifier t h =>
      obtain ⟨his, hc⟩ := Bool.and_eq_true_iff.mp h
      have ht : Css.IsValue t := hvalues t List.mem_cons_self
      have hblank : t.isBlank = false := ht.not_isBlank (by simp [Css.signKinds]) his
      have hident : t.is Css.ident = false := ht.not_is (by simp [Css.signKinds]) his (by decide)
      have hnot : isCombinator t = false := by simpa using hc
      rw [List.singleton_append, readAll_cons, hblank, hnot, hident, his]
      rfl
  | @universal t h =>
      obtain ⟨hnameless, hchar⟩ := Bool.and_eq_true_iff.mp h
      obtain ⟨hblank, hident, hhash⟩ := isNameless_iff.mp hnameless
      have hc : isCombinator t = false := isCombinator_of_asChar? (beq_iff_eq.mp hchar) (by decide)
      rw [List.singleton_append, readAll_cons, hblank, hc, hident, hhash, hchar]
      rfl
  | @className t u h hu =>
      obtain ⟨hnameless, hchar⟩ := Bool.and_eq_true_iff.mp h
      obtain ⟨hblank, hident, hhash⟩ := isNameless_iff.mp hnameless
      have hc : isCombinator t = false := isCombinator_of_asChar? (beq_iff_eq.mp hchar) (by decide)
      show readAll r (t :: u :: rest) = _
      rw [readAll_cons, hblank, hc, hident, hhash, beq_iff_eq.mp hchar]
      exact if_pos hu
  | @pseudoClass t u h hu hname =>
      apply readAll_of_colon (hvalues t List.mem_cons_self) h
      simp only [readPseudo, hu, hname, if_true]
  | @function t u c f h hcall hf hprepared =>
      apply readAll_of_colon (hvalues t List.mem_cons_self) h
      exact readPseudo_function (hvalues u (by simp)) hcall hf hprepared

theorem Compound.readAll_eq {ts : List Token} {parts : List Simple}
    (h : Compound .byCharacter r ts parts) (hvalues : forall t, t ∈ ts -> Css.IsValue t) :
    readAll r ts = .ok parts := by
  induction h with
  | nil => rfl
  | @cons front rest s parts hpart _ ih =>
      rw [hpart.readAll_append fun t ht => hvalues t (List.mem_append_left _ ht),
        ih fun t ht => hvalues t (List.mem_append_right _ ht)]
      rfl

/-- Reading is by this grammar: all parts of a group are read, in order, and no other
group. -/
theorem readAll_eq_ok_iff {ts : List Token} (hvalues : forall t, t ∈ ts -> Css.IsValue t)
    {parts : List Simple} :
    readAll r ts = .ok parts ↔ Compound .byCharacter r ts parts := by
  constructor
  · exact compound_of_readAll
  · intro h
    exact h.readAll_eq hvalues

/-!
## Where the readings differ
-/

/-- Does a token of a kind that is no part of the grammar hold the character of a sign? -/
def isDisguised (t : Token) : Bool :=
  Signs.isNameless t && !t.is Css.delim && (t.asChar? == some '*' || t.asChar? == some '.')

def isTakenForCombinator : Simple -> Bool
  | type name => isCombinatorName name
  | identifier name => isCombinatorName name
  | _ => false

theorem isDisguised_of_asChar?_none {t : Token} (h : t.asChar? = none) :
    isDisguised t = false := by
  simp [isDisguised, h]

theorem isDisguised_of_is_ident {t : Token} (h : t.is Css.ident = true) :
    isDisguised t = false := by
  simp [isDisguised, Signs.isNameless, h]

theorem isDisguised_of_is_hash {t : Token} (h : t.is Css.hash = true) :
    isDisguised t = false := by
  simp [isDisguised, Signs.isNameless, h]

theorem isDisguised_of_isDelim {t : Token} {c : Char} (h : Css.isDelim t c = true) :
    isDisguised t = false := by
  have hdelim : t.is Css.delim = true := (Bool.and_eq_true_iff.mp h).1
  simp [isDisguised, hdelim]

theorem Part.not_isDisguised {front : List Token} {s : Simple} (h : Part .written r front s)
    (hvalues : forall t, t ∈ front -> Css.IsValue t) :
    forall t, t ∈ front -> isDisguised t = false := by
  have hcolon : forall t, t ∈ front -> t.is Css.colon = true -> isDisguised t = false := by
    intro t ht his
    have hpayload := (hvalues t ht).payload_of_colon his
    exact isDisguised_of_asChar?_none (asChar?_of_payload_none hpayload)
  cases h with
  | @type t h => exact List.forall_mem_singleton.mpr (isDisguised_of_is_ident h)
  | @identifier t h => exact List.forall_mem_singleton.mpr (isDisguised_of_is_hash h)
  | @universal t h => exact List.forall_mem_singleton.mpr (isDisguised_of_isDelim h)
  | @className t u h hu =>
      exact List.forall_mem_cons.mpr
        ⟨isDisguised_of_isDelim h, List.forall_mem_singleton.mpr (isDisguised_of_is_ident hu)⟩
  | @pseudoClass t u h hu hname =>
      exact List.forall_mem_cons.mpr
        ⟨hcolon t List.mem_cons_self h, List.forall_mem_singleton.mpr (isDisguised_of_is_ident hu)⟩
  | @function t u c f h hcall hf hprepared =>
      exact List.forall_mem_cons.mpr ⟨hcolon t List.mem_cons_self h,
        List.forall_mem_singleton.mpr (isDisguised_of_asChar?_none (asChar?_of_asCall? hcall))⟩

theorem isDelim_of_not_isDisguised {t : Token} {c : Char} (hc : c = '*' ∨ c = '.')
    (h : (Signs.isNameless t && t.asChar? == some c) = true) (hnot : isDisguised t = false) :
    Css.isDelim t c = true := by
  obtain ⟨hnameless, hchar⟩ := Bool.and_eq_true_iff.mp h
  have hsign : (t.asChar? == some '*' || t.asChar? == some '.') = true := by
    rcases hc with rfl | rfl
    · rw [hchar, Bool.true_or]
    · rw [hchar, Bool.or_true]
  rw [isDisguised, hnameless, hsign] at hnot
  have hdelim : t.is Css.delim = true := by simpa using hnot
  rw [Css.isDelim, Token.isChar, hdelim, hchar]
  rfl

theorem Part.written_of_byCharacter {front : List Token} {s : Simple}
    (h : Part .byCharacter r front s) (hnot : forall t, t ∈ front -> isDisguised t = false) :
    Part .written r front s := by
  cases h with
  | @type t h => exact .type (Bool.and_eq_true_iff.mp h).1
  | @identifier t h => exact .identifier (Bool.and_eq_true_iff.mp h).1
  | @universal t h =>
      exact .universal (isDelim_of_not_isDisguised (Or.inl rfl) h (hnot t List.mem_cons_self))
  | @className t u h hu =>
      have hdelim := isDelim_of_not_isDisguised (Or.inr rfl) h (hnot t List.mem_cons_self)
      exact .className hdelim hu
  | pseudoClass h hu hname => exact .pseudoClass h hu hname
  | function h hcall hf hprepared => exact .function h hcall hf hprepared

/-- What was read has the written form exactly if no sign in it is disguised. -/
theorem Compound.written_iff {ts : List Token} {parts : List Simple}
    (h : Compound .byCharacter r ts parts) (hvalues : forall t, t ∈ ts -> Css.IsValue t) :
    Compound .written r ts parts ↔ forall t, t ∈ ts -> isDisguised t = false := by
  constructor
  · intro hwritten t ht
    obtain ⟨front, s, hfront, hmem, hpart⟩ := hwritten.exists_part_of_mem ht
    exact hpart.not_isDisguised (fun u hu => hvalues u (hmem u hu)) t hfront
  · intro hnot
    apply h.imp
    intro front s hfront _ hpart
    exact hpart.written_of_byCharacter fun t ht => hnot t (hfront t ht)

theorem isCombinator_of_name {t : Token} {k : Kind} (ht : Css.IsValue t)
    (hk : k ∈ [Css.ident, Css.hash]) (his : t.is k = true) :
    isCombinator t = isCombinatorName t.text :=
  isCombinatorName_of_text (ht.payload_of_name hk his)

theorem Part.not_isTakenForCombinator {front : List Token} {s : Simple}
    (h : Part .byCharacter r front s) (hvalues : forall t, t ∈ front -> Css.IsValue t) :
    s.isTakenForCombinator = false := by
  cases h with
  | @type t h =>
      obtain ⟨his, hc⟩ := Bool.and_eq_true_iff.mp h
      show isCombinatorName (Text.lower t.text) = false
      rw [isCombinatorName_lower,
        ← isCombinator_of_name (hvalues t List.mem_cons_self) (by simp) his]
      simpa using hc
  | @identifier t h =>
      obtain ⟨his, hc⟩ := Bool.and_eq_true_iff.mp h
      show isCombinatorName t.text = false
      rw [← isCombinator_of_name (hvalues t List.mem_cons_self) (by simp) his]
      simpa using hc
  | _ => rfl

theorem nameless_of_isDelim {t : Token} {c : Char} (ht : Css.IsValue t)
    (h : Css.isDelim t c = true) : (Signs.isNameless t && t.asChar? == some c) = true := by
  obtain ⟨his, hchar⟩ := Bool.and_eq_true_iff.mp h
  have hsign : Css.delim ∈ Css.signKinds := by simp [Css.signKinds]
  rw [isNameless_iff.mpr ⟨ht.not_isBlank hsign his, ht.not_is hsign his (by decide),
    ht.not_is hsign his (by decide)⟩, hchar]
  rfl

theorem Part.byCharacter_of_written {front : List Token} {s : Simple}
    (h : Part .written r front s) (hvalues : forall t, t ∈ front -> Css.IsValue t)
    (hnot : s.isTakenForCombinator = false) : Part .byCharacter r front s := by
  cases h with
  | @type t h =>
      have hc : isCombinator t = false := by
        rw [isCombinator_of_name (hvalues t List.mem_cons_self) (by simp) h,
          ← isCombinatorName_lower]
        exact hnot
      have hname : t.is Css.ident = true := h
      exact .type (by simp [Signs.byCharacter, hname, hc])
  | @identifier t h =>
      have hc : isCombinator t = false := by
        rw [isCombinator_of_name (hvalues t List.mem_cons_self) (by simp) h]
        exact hnot
      have hname : t.is Css.hash = true := h
      exact .identifier (by simp [Signs.byCharacter, hname, hc])
  | @universal t h => exact .universal (nameless_of_isDelim (hvalues t List.mem_cons_self) h)
  | @className t u h hu =>
      exact .className (nameless_of_isDelim (hvalues t List.mem_cons_self) h) hu
  | pseudoClass h hu hname => exact .pseudoClass h hu hname
  | function h hcall hf hprepared => exact .function h hcall hf hprepared

theorem Compound.byCharacter_iff {ts : List Token} {parts : List Simple}
    (h : Compound .written r ts parts) (hvalues : forall t, t ∈ ts -> Css.IsValue t) :
    Compound .byCharacter r ts parts ↔
      forall s, s ∈ parts -> s.isTakenForCombinator = false := by
  constructor
  · intro hread s hs
    obtain ⟨front, hfront, hpart⟩ := hread.exists_front_of_mem hs
    exact hpart.not_isTakenForCombinator fun t ht => hvalues t (hfront t ht)
  · intro hnot
    apply h.imp
    intro front s hfront hs hpart
    exact hpart.byCharacter_of_written (fun t ht => hvalues t (hfront t ht)) (hnot s hs)

end Simple

namespace Selector

open Simple

variable {r : SelectorRegistry}

theorem readGroup_eq_ok_iff {l : Location} {ts : List Token} {s : Selector} :
    readGroup r l ts = .ok s ↔
      exists parts, parts ≠ [] ∧ readAll r ts = .ok parts ∧ s = ofSimples parts := by
  constructor
  · intro h
    unfold readGroup at h
    split at h
    · cases h
    · cases h
    · rename_i u parts hread
      exact ⟨u :: parts, List.cons_ne_nil u parts, hread, (Except.ok.inj h).symm⟩
  · rintro ⟨parts, hne, hread, rfl⟩
    cases parts with
    | nil => exact absurd rfl hne
    | cons u parts =>
        unfold readGroup
        rw [hread]

theorem mem_of_trimGroup {ts : List Token} {t : Token} (h : t ∈ trimGroup ts) : t ∈ ts := by
  rw [trimGroup, List.mem_reverse] at h
  have hinner := (List.dropWhile_sublist _).mem h
  rw [List.mem_reverse] at hinner
  exact (List.dropWhile_sublist _).mem hinner

/-- A group is read exactly if it is a run of parts, as the selector of these parts in order.
A group that is read has the written form exactly if no sign in it is disguised, and one of
the written form is read exactly if no name in it is taken for a combinator. -/
theorem readGroup_grammar {l : Location} {group : List Token}
    (hvalues : forall t, t ∈ group -> Css.IsValue t) :
    (forall s, readGroup r l (trimGroup group) = .ok s ↔
      exists parts, parts ≠ [] ∧ Compound .byCharacter r (trimGroup group) parts ∧
        s = ofSimples parts) ∧
    (forall parts, Compound .byCharacter r (trimGroup group) parts ->
      (Compound .written r (trimGroup group) parts ↔
        forall t, t ∈ trimGroup group -> isDisguised t = false)) ∧
    forall parts, Compound .written r (trimGroup group) parts ->
      (Compound .byCharacter r (trimGroup group) parts ↔
        forall s, s ∈ parts -> s.isTakenForCombinator = false) := by
  have htrimmed : forall t, t ∈ trimGroup group -> Css.IsValue t :=
    fun t ht => hvalues t (mem_of_trimGroup ht)
  constructor
  · intro s
    simp only [readGroup_eq_ok_iff, readAll_eq_ok_iff htrimmed]
  · constructor
    · intro parts hread
      exact hread.written_iff htrimmed
    · intro parts hwritten
      exact hwritten.byCharacter_iff htrimmed

def hovered : List Token :=
  [⟨Css.whitespace, .none, ⟨1, 1, 0⟩, none⟩, ⟨Css.delim, .char '*', ⟨1, 2, 1⟩, none⟩,
    ⟨Css.delim, .char '.', ⟨1, 3, 2⟩, none⟩, ⟨Css.ident, .text "a", ⟨1, 4, 3⟩, none⟩,
    ⟨Css.colon, .none, ⟨1, 5, 4⟩, none⟩, ⟨Css.ident, .text "Hover", ⟨1, 6, 5⟩, none⟩,
    ⟨Css.whitespace, .none, ⟨1, 11, 10⟩, none⟩]

theorem isValue_hovered : forall t, t ∈ hovered -> Css.IsValue t := by
  have hrun : (parseRun (.ofOptions {}) Token.isEof (Css.tokenize {} " *.a:Hover ")).value =
      hovered := by
    with_unfolding_all rfl
  rw [← hrun]
  exact Css.isValue_parseRun _ _ fun t ht => ⟨{}, _, ht⟩

theorem readGroup_grammar_hovered :
    (forall t, t ∈ hovered -> Css.IsValue t) ∧
      exists parts, parts ≠ [] ∧ Compound .written .standard (trimGroup hovered) parts ∧
        ofSimples [.universal, .className "a", .pseudoClass "hover"] = ofSimples parts := by
  obtain ⟨hread, hwritten, -⟩ := readGroup_grammar (r := .standard) (l := .start) isValue_hovered
  constructor
  · exact isValue_hovered
  · have hok : readGroup .standard .start (trimGroup hovered) =
        .ok (ofSimples [.universal, .className "a", .pseudoClass "hover"]) := by rfl
    obtain ⟨parts, hne, hcompound, hsame⟩ := (hread _).mp hok
    refine ⟨parts, hne, (hwritten parts hcompound).mpr ?_, hsame⟩
    intro t ht
    have hall : ((trimGroup hovered).all fun t => !isDisguised t) = true := by decide
    simpa using List.all_eq_true.mp hall t ht

theorem parse_of_parseRun {s : String} {values rest : List Token}
    (h : parseRun (.ofOptions {}) Token.isEof (Css.tokenize {} s) = ⟨values, [], rest⟩) :
    RuleSelector.parse r s = RuleSelector.read r values := by
  show (Outcome.mk () ((parseRun _ _ _).errors.map SelectorError.malformed)).andThen
    (fun _ => RuleSelector.read r (parseRun _ _ _).value) = _
  rw [h]
  rfl

def quotedStar : Token := ⟨Css.string, .text "*", ⟨1, 1, 0⟩, none⟩

/-- A type whose name is a combinator. -/
def escapedChild : Token := ⟨Css.ident, .text ">", ⟨1, 1, 0⟩, none⟩

/-- The string is read as the universal selector, which it is not; the type is one, but it
is not read. -/
theorem not_readGroup_grammar_written :
    (Css.tokenize {} "\"*\"" = [quotedStar, Token.eof.placed ⟨1, 4, 3⟩] ∧
      RuleSelector.parse .standard "\"*\"" = ⟨some (.ofSelector (ofSimples [.universal])), []⟩ ∧
      ¬ exists parts, Compound .written .standard [quotedStar] parts) ∧
    Css.tokenize {} "\\>" = [escapedChild, Token.eof.placed ⟨1, 3, 2⟩] ∧
      Compound .written .standard [escapedChild] [.type ">"] ∧
      RuleSelector.parse .standard "\\>" = ⟨none, [.combinator ⟨1, 1, 0⟩]⟩ := by
  have hstring : Css.tokenize {} "\"*\"" = [quotedStar, Token.eof.placed ⟨1, 4, 3⟩] := by
    with_unfolding_all rfl
  have hname : Css.tokenize {} "\\>" = [escapedChild, Token.eof.placed ⟨1, 3, 2⟩] := by
    with_unfolding_all rfl
  have hrun : parseRun (.ofOptions {}) Token.isEof (Css.tokenize {} "\"*\"") =
      ⟨[quotedStar], [], [Token.eof.placed ⟨1, 4, 3⟩]⟩ := by
    with_unfolding_all rfl
  have hvalues : forall t, t ∈ [quotedStar] -> Css.IsValue t := by
    rw [← show (parseRun _ _ _).value = [quotedStar] from congrArg Parsed.value hrun]
    exact Css.isValue_parseRun _ _ fun t ht => ⟨{}, _, ht⟩
  refine ⟨⟨hstring, ?_, ?_⟩, hname, ?_, ?_⟩
  · rw [parse_of_parseRun hrun]
    rfl
  · rintro ⟨parts, hwritten⟩
    obtain ⟨front, s, hstar, hmem, hpart⟩ := hwritten.exists_part_of_mem List.mem_cons_self
    have hdisguised : isDisguised quotedStar = true := by decide
    rw [hpart.not_isDisguised (fun t ht => hvalues t (hmem t ht)) quotedStar hstar] at hdisguised
    cases hdisguised
  · exact .cons (.type (by decide)) .nil
  · have hrun : parseRun (.ofOptions {}) Token.isEof (Css.tokenize {} "\\>") =
        ⟨[escapedChild], [], [Token.eof.placed ⟨1, 3, 2⟩]⟩ := by
      with_unfolding_all rfl
    rw [parse_of_parseRun hrun]
    rfl

end Selector

end StyleTokens

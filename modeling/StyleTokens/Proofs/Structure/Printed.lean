import StyleTokens.Proofs.Css.ReadBack.Unescaped
import StyleTokens.Proofs.Structure.Reread
import StyleTokens.Structure.Rule

/-!
# What nodes print of a name

Tokens write their names with escapes, nodes write them as they are.  A text that was
printed for a node starts with the token that the node was built from, whatever else is in
the node, exactly if the name is plain; and a value that was read without an error prints
the text of its tokens exactly if none of the function names in it is escaped.
-/

namespace StyleTokens

open Css (isPlainName)
open Encoding (nameChar nameStart writeName)

/-!
## Names that are written without an escape
-/

namespace Encoding

theorem length_hexEscape (c : Char) : 1 < (hexEscape c).length := by
  simp [hexEscape]

theorem length_nameChar (c : Char) :
    1 ≤ (nameChar c).length ∧ ((nameChar c).length = 1 -> nameChar c = [c]) := by
  rcases Css.nameChar_cases c with hchar | ⟨_, hchar⟩ | ⟨_, _, hchar⟩
  · have hlen := length_hexEscape c
    rw [hchar]
    exact ⟨Nat.le_of_lt hlen, fun h => absurd h (Nat.ne_of_gt hlen)⟩
  · rw [hchar]
    exact ⟨Nat.le_refl 1, fun _ => rfl⟩
  · rw [hchar]
    exact ⟨Nat.le_succ 1, fun h => absurd h (by simp)⟩

theorem length_nameStart (c : Char) :
    1 ≤ (nameStart c).length ∧ ((nameStart c).length = 1 -> nameStart c = [c]) := by
  unfold nameStart
  split
  · have hlen := length_hexEscape c
    exact ⟨Nat.le_of_lt hlen, fun h => absurd h (Nat.ne_of_gt hlen)⟩
  · exact length_nameChar c

theorem length_nameChars (cs : List Char) :
    cs.length ≤ (cs.flatMap nameChar).length ∧
      ((cs.flatMap nameChar).length = cs.length -> cs.flatMap nameChar = cs) := by
  induction cs with
  | nil => exact ⟨Nat.le_refl 0, fun _ => rfl⟩
  | cons c cs ih =>
      rcases length_nameChar c with ⟨hle, heq⟩
      rcases ih with ⟨hles, heqs⟩
      rw [List.flatMap_cons, List.length_append, List.length_cons]
      refine ⟨by omega, fun hlen => ?_⟩
      rw [heq (by omega), heqs (by omega), List.singleton_append]

theorem length_writeName (cs : List Char) :
    cs.length ≤ (writeName cs).length ∧
      ((writeName cs).length = cs.length -> writeName cs = cs) := by
  unfold writeName
  split
  · exact ⟨Nat.le_refl 0, fun _ => rfl⟩
  · exact ⟨by decide, fun h => absurd h (by decide)⟩
  · rename_i c cs
    rcases length_nameStart c with ⟨hle, heq⟩
    rcases length_nameChars cs with ⟨hles, heqs⟩
    simp only [List.length_append, List.length_cons]
    refine ⟨by omega, fun hlen => ?_⟩
    rw [heq (by omega), heqs (by omega)]
    rfl
  · rename_i c cs _ _
    rcases length_nameStart c with ⟨hle, heq⟩
    rcases length_nameChars cs with ⟨hles, heqs⟩
    simp only [List.length_append, List.length_cons]
    refine ⟨by omega, fun hlen => ?_⟩
    rw [heq (by omega), heqs (by omega), List.singleton_append]

end Encoding

/-!
## Nodes that are built from a token
-/

/-- Is the token the first one of a text that is cut again? -/
def Leads (t : Token) (text : String) : Prop :=
  Css.dialect.first? {} text = some t.unplaced

def Css.blockOpeners : List Kind := [Css.openBrace, Css.openBracket, Css.openParen]

/-- Whatever else is in a node of that name, its text starts with the token. -/
structure NodesLead (t : Token) : Prop where
  declaration : t.kind = Css.ident ->
    forall d : Declaration, d.name = t.text -> Leads t d.source
  call : t.kind = Css.function -> forall c : Call, c.name = t.text -> Leads t c.source
  rule : t.kind = Css.atKeyword -> forall r : AtRule, r.name = t.text ->
    (forall b, r.block = some b -> b.opening ∈ Css.blockOpeners) -> Leads t (Rule.named r).source

theorem source_declaration (d : Declaration) :
    exists rest, d.source.toList = d.name.toList ++ ':' :: rest := by
  refine ⟨(d.valueSource ++ if d.important then " !important" else "").toList, ?_⟩
  simp [Declaration.source]

theorem source_call (c : Call) :
    c.source.toList = c.name.toList ++ '(' :: ((Token.runSource c.values).toList ++ [')']) := by
  simp [Call.source_eq]

def ruleMarks : List Char := [' ', ';', '\x7b', '[', '(']

theorem source_block {b : Block} (h : b.opening ∈ Css.blockOpeners) :
    exists m rest, b.source.toList = m :: rest ∧ m ∈ ruleMarks := by
  have hraw : forall k, k ∈ Css.blockOpeners ->
      exists m, (k.raw.getD "").toList = [m] ∧ m ∈ ruleMarks := by
    intro k hk
    simp only [Css.blockOpeners, List.mem_cons, List.not_mem_nil, or_false] at hk
    rcases hk with rfl | rfl | rfl
    · exact ⟨'\x7b', by decide, by decide⟩
    · exact ⟨'[', by decide, by decide⟩
    · exact ⟨'(', by decide, by decide⟩
  rcases hraw _ h with ⟨m, hm, hmark⟩
  refine ⟨m, (Token.runSource b.values).toList ++ (b.closing.raw.getD "").toList, ?_, hmark⟩
  rw [Block.source_eq, String.toList_append, String.toList_append, hm, List.append_assoc]
  rfl

theorem source_rule {r : AtRule}
    (h : forall b, r.block = some b -> b.opening ∈ Css.blockOpeners) :
    exists m rest, (Rule.named r).source.toList = '@' :: (r.name.toList ++ m :: rest) ∧
      m ∈ ruleMarks := by
  rcases r with ⟨name, prelude, block, location⟩
  by_cases hempty : Token.runSource prelude = ""
  · cases block with
    | none => exact ⟨';', [], by simp [Rule.source, hempty], by decide⟩
    | some b =>
        rcases source_block (h b rfl) with ⟨m, rest, hsource, hmark⟩
        exact ⟨m, rest, by simp [Rule.source, hempty, hsource], hmark⟩
  · cases block with
    | none =>
        refine ⟨' ', (Token.runSource prelude ++ ";").toList, ?_, by decide⟩
        simp [Rule.source, hempty]
    | some b =>
        refine ⟨' ', (Token.runSource prelude ++ b.source).toList, ?_, by decide⟩
        simp [Rule.source, hempty]

def Css.namingKinds : List Kind := [Css.ident, Css.function, Css.atKeyword]

section Nodes

variable {k : Kind} {cs : List Char} {l : Location}

theorem nodesLead_of_plain (hplain : isPlainName cs = true)
    (hurl : k = Css.function -> Text.sameFolded (String.ofList cs) "url" = false) :
    NodesLead ⟨k, .text (String.ofList cs), l, none⟩ := by
  have hname : forall {name : String}, name = String.ofList cs -> name.toList = cs := by
    rintro name rfl
    exact String.toList_ofList
  constructor
  · intro hk d hd
    cases hk
    rcases source_declaration d with ⟨rest, hsource⟩
    rw [hname hd] at hsource
    exact Css.first?_ident_of_plain {} hplain hsource
  · intro hk c hc
    cases hk
    have hsource := source_call c
    rw [hname hc] at hsource
    exact Css.first?_function_of_plain {} hplain (hurl rfl) hsource
  · intro hk r hr hblock
    cases hk
    have hmarks : forall m, m ∈ ruleMarks ->
        Css.isNameChar m = false ∧ m ≠ '\\' ∧ Css.isReplaced m = false := by
      intro m hm
      simp only [ruleMarks, List.mem_cons, List.not_mem_nil, or_false] at hm
      rcases hm with rfl | rfl | rfl | rfl | rfl <;> exact ⟨by decide, by decide, by decide⟩
    rcases source_rule hblock with ⟨m, rest, hsource, hmark⟩
    rcases hmarks m hmark with ⟨hchar, hback, hreplaced⟩
    rw [hname hr] at hsource
    exact Css.first?_atKeyword_of_plain {} hplain hchar hback hreplaced hsource

theorem isPlainName_of_nodesLead (hk : k ∈ Css.namingKinds) (hne : cs ≠ [])
    (h : NodesLead ⟨k, .text (String.ofList cs), l, none⟩) : isPlainName cs = true := by
  simp only [Css.namingKinds, List.mem_cons, List.not_mem_nil, or_false] at hk
  rcases hk with rfl | rfl | rfl
  · have hleads := h.declaration rfl ⟨String.ofList cs, [], false, l⟩ rfl
    have hsource : (Declaration.source ⟨String.ofList cs, [], false, l⟩).toList = cs ++ [':'] := by
      simp [Declaration.source, Declaration.valueSource]
    exact Css.isPlainName_of_first? (Css.endsName_of_mem (by decide))
      (by simp [Css.leadingKinds]) hne hsource (Nat.zero_le _) hleads
  · have hleads := h.call rfl ⟨String.ofList cs, [], l⟩ rfl
    have hsource : (Call.source ⟨String.ofList cs, [], l⟩).toList = cs ++ ['(', ')'] := by
      simp [source_call]
    have hshort : [')'].length ≤ if Css.function.same Css.function then 1 else 0 := by decide
    exact Css.isPlainName_of_first? (Css.endsName_of_mem (by decide)) (by simp [Css.leadingKinds])
      hne hsource hshort hleads
  · have hleads := h.rule rfl ⟨String.ofList cs, [], none, l⟩ rfl (fun b hb => by cases hb)
    have hsource : (Rule.named ⟨String.ofList cs, [], none, l⟩).source.toList =
        '@' :: (cs ++ [';']) := by
      simp [Rule.source]
    exact Css.isPlainName_of_first?_at (Css.endsName_of_mem (by decide)) hne hsource {} hleads

end Nodes

/-- All nodes that can be built from a token print a text that starts with it exactly if
its name is plain. -/
theorem nodesLead_iff {t : Token} (ht : Css.Emitted t) (hk : t.kind ∈ Css.namingKinds)
    (hurl : t.kind = Css.function -> Text.sameFolded t.text "url" = false) :
    NodesLead t ↔ isPlainName t.text.toList = true := by
  have hdecoded : forall k, k ∈ Css.namingKinds -> k ∈ Css.decodedKinds ∧ k ∈ Css.nameKinds := by
    simp [Css.namingKinds, Css.decodedKinds, Css.nameKinds]
  rcases ht.of_decoded (hdecoded _ hk).1 with ⟨cs, l, heq, _, hname⟩
  have hne := hname (hdecoded _ hk).2
  have htext : t.text = String.ofList cs := by rw [heq]; rfl
  rw [htext] at hurl
  rw [htext, String.toList_ofList, heq]
  constructor
  · exact isPlainName_of_nodesLead hk hne
  · intro hplain
    exact nodesLead_of_plain hplain hurl

/-!
## Values and the tokens that they were read from
-/

/-- If the token names a function, its name is written without an escape. -/
def Unescaped (t : Token) : Prop :=
  t.is Css.function = true -> writeName t.text.toList = t.text.toList

/-- The text is what the tokens are written as, but with all function names as they are. -/
structure Spells (text : String) (ts : List Token) : Prop where
  length_le : text.toList.length ≤ (Token.runSource ts).toList.length
  eq_iff : text = Token.runSource ts ↔ forall t, t ∈ ts -> Unescaped t

namespace Spells

theorem nil : Spells "" [] where
  length_le := Nat.le_refl _
  eq_iff := iff_of_true rfl fun t ht => by cases ht

theorem single {t : Token} (h : t.is Css.function = false) : Spells t.source [t] := by
  rw [← Token.runSource_singleton t]
  refine ⟨Nat.le_refl _, iff_of_true rfl ?_⟩
  intro u hu his
  rw [List.mem_singleton.mp hu, h] at his
  cases his

theorem append {a b : String} {ts us : List Token} (ha : Spells a ts) (hb : Spells b us) :
    Spells (a ++ b) (ts ++ us) := by
  have hale := ha.length_le
  have hble := hb.length_le
  constructor
  · simp only [Token.runSource_append, String.toList_append, List.length_append]
    omega
  · rw [Token.runSource_append, List.forall_mem_append, ← ha.eq_iff, ← hb.eq_iff]
    constructor
    · intro h
      have hlist := congrArg String.toList h
      have hlength := congrArg List.length hlist
      simp only [String.toList_append, List.length_append] at hlist hlength
      rcases List.append_inj hlist (by omega) with ⟨hfirst, hsecond⟩
      exact ⟨String.toList_inj.mp hfirst, String.toList_inj.mp hsecond⟩
    · rintro ⟨rfl, rfl⟩
      rfl

end Spells

def Construct.head : Construct -> String
  | block opening _ => opening.raw.getD ""
  | call name => name ++ "("

theorem source_construct {t : Token} {c : Construct} (ho : t.opens? = some c)
    (values : List Token) (l : Location) :
    (c.token values l).source = c.head ++ Token.runSource values ++ c.closer.source := by
  have hclosing : c.closer.source = c.closing.raw.getD "" := by
    have hall : forall k, k ∈ [Css.closeBrace, Css.closeBracket, Css.closeParen] ->
        k.encode (k.raw.getD "") = k.raw.getD "" := by
      decide
    exact hall _ (closing_of_opens? ho)
  rw [hclosing]
  cases c with
  | block opening closing => exact Block.source_eq _
  | call name => exact Call.source_eq _

theorem source_function {t : Token} (hkind : t.kind = Css.function)
    (hpayload : t.payload = .text t.text) :
    t.source.toList = writeName t.text.toList ++ ['('] := by
  rw [Token.source_eq, hkind, hpayload]
  exact String.toList_ofList

theorem spells_function {t : Token} (hkind : t.kind = Css.function)
    (hpayload : t.payload = .text t.text) : Spells (t.text ++ "(") [t] := by
  have hsource := source_function hkind hpayload
  have htext : (t.text ++ "(").toList = t.text.toList ++ ['('] := by simp
  rcases Encoding.length_writeName t.text.toList with ⟨hle, heq⟩
  constructor
  · rw [htext, Token.runSource_singleton, hsource, List.length_append, List.length_append]
    exact Nat.add_le_add_right hle 1
  · rw [Token.runSource_singleton, ← String.toList_inj, htext, hsource,
      List.append_cancel_right_eq]
    constructor
    · intro h u hu _
      rw [List.mem_singleton.mp hu]
      exact h.symm
    · intro h
      have his : t.is Css.function = true := by
        rw [Token.is, hkind]
        rfl
      exact (h t List.mem_cons_self his).symm

theorem spells_head {t : Token} (ht : Css.Emitted t) {c : Construct}
    (ho : t.opens? = some c) : Spells c.head [t] := by
  have hcontent := ht.content_of_opens? ho
  unfold Token.opens? at ho
  split at ho
  · rename_i closing hclosing
    cases ho
    have hpayload : t.payload = .none := congrArg Prod.snd hcontent
    have hkinds : forall k, k ∈ Css.comment :: Css.contentKinds ->
        (Css.closingOf? k).isSome = true ->
          k.encode (k.raw.getD "") = k.raw.getD "" ∧ k.same Css.function = false := by
      decide
    rcases hkinds t.kind ht.kind_mem (by rw [hclosing]; rfl) with ⟨hencode, hfunction⟩
    have hsource : t.source = t.kind.raw.getD "" := by
      rw [Token.source_eq, hpayload]
      exact hencode
    show Spells (t.kind.raw.getD "") [t]
    rw [← hsource]
    exact .single hfunction
  · split at ho
    · rename_i his
      cases ho
      rcases ht.of_function his with ⟨hkind, hpayload⟩
      exact spells_function hkind hpayload
    · cases ho

theorem spells_closer {t u : Token} (hu : Css.Emitted u) {c : Construct}
    (ho : t.opens? = some c) (his : u.is c.closing = true) : Spells c.closer.source [u] := by
  have hcontent := hu.content_of_closing ho his
  have hkind : u.kind = c.closer.kind := congrArg Prod.fst hcontent
  have hsource : u.source = c.closer.source := by
    rw [Token.source_eq, hkind, show u.payload = c.closer.payload from congrArg Prod.snd hcontent,
      Token.source_eq]
  have hnot : u.is Css.function = false := by
    have hall : forall k, k ∈ [Css.closeBrace, Css.closeBracket, Css.closeParen] ->
        k.same Css.function = false := by
      decide
    rw [Token.is, hkind]
    exact hall _ (closing_of_opens? ho)
  rw [← hsource]
  exact .single hnot

theorem MadeOf.spells {values tokens : List Token} (h : MadeOf values tokens) :
    Spells (Token.runSource values) tokens := by
  induction h with
  | nil => exact .nil
  | single _ ho _ ih =>
      have hnot := opens?_eq_none_iff.mp ho Css.function (by simp [Css.openers])
      exact (Spells.single hnot).append ih
  | @nested t u c inner inside values tokens ht ho hu hclosing _ _ ihinner ih =>
      have hcloser := (spells_closer hu ho hclosing).append ih
      have hall := ((spells_head ht ho).append ihinner).append hcloser
      rw [Token.runSource_cons, source_construct ho, String.append_assoc]
      simpa using hall

/-- A value that is read without an error prints the tokens that it was read from, but
for the escapes of function names. -/
theorem spells_read {n : Nesting} {input : List Token}
    (hemitted : forall t, t ∈ input -> Css.Emitted t)
    (h : (Component.read n input).errors = []) :
    exists taken, taken ++ (Component.read n input).rest = input ∧
      Spells (Component.read n input).value.source taken := by
  cases input with
  | nil => cases h
  | cons t ts =>
      rcases madeOf_readComponent hemitted h with ⟨taken, htaken, hmade⟩
      have hspells := hmade.spells
      rw [Token.runSource_singleton] at hspells
      exact ⟨t :: taken, congrArg (t :: ·) htaken, hspells⟩

/-!
## Where nodes and tokens agree
-/

/-- Of tokens that were cut from style sheets, nodes print a name so that it is read back
exactly if it is plain.  A value that is read from them without an error prints the text
of its tokens exactly if all names of functions in it are written without an escape. -/
theorem printed_names_iff (n : Nesting) {input : List Token}
    (hemitted : forall t, t ∈ input -> Css.Emitted t) :
    (forall t, t ∈ input -> t.kind ∈ Css.namingKinds ->
      (t.kind = Css.function -> Text.sameFolded t.text "url" = false) ->
        (NodesLead t ↔ isPlainName t.text.toList = true)) ∧
      ((Component.read n input).errors = [] ->
        exists taken, taken ++ (Component.read n input).rest = input ∧
          ((Component.read n input).value.source = Token.runSource taken ↔
            forall t, t ∈ taken -> Unescaped t)) := by
  constructor
  · intro t ht hk hurl
    exact nodesLead_iff (hemitted t ht) hk hurl
  · intro h
    rcases spells_read hemitted h with ⟨taken, htaken, hspells⟩
    exact ⟨taken, htaken, hspells.eq_iff⟩

def plainCall : Token := ⟨Css.function, .text "f", ⟨1, 1, 0⟩, none⟩

theorem tokenize_plainCall :
    Css.tokenize {} "f(a)" =
      [plainCall, ⟨Css.ident, .text "a", ⟨1, 3, 2⟩, none⟩, ⟨Css.closeParen, .none, ⟨1, 4, 3⟩, none⟩,
        Token.eof.placed ⟨1, 5, 4⟩] := by
  with_unfolding_all rfl

theorem printed_names_plainCall :
    NodesLead plainCall ∧
      exists taken, taken ++ (Component.read ⟨1, 0⟩ (Css.tokenize {} "f(a)")).rest =
          Css.tokenize {} "f(a)" ∧
        ((Component.read ⟨1, 0⟩ (Css.tokenize {} "f(a)")).value.source = Token.runSource taken ↔
          forall t, t ∈ taken -> Unescaped t) := by
  have hemitted : forall t, t ∈ Css.tokenize {} "f(a)" -> Css.Emitted t := fun t ht => ⟨{}, _, ht⟩
  have hcall : plainCall ∈ Css.tokenize {} "f(a)" := by
    rw [tokenize_plainCall]
    exact List.mem_cons_self
  have herrors : (Component.read ⟨1, 0⟩ (Css.tokenize {} "f(a)")).errors = [] := by
    rw [tokenize_plainCall]
    decide +kernel
  obtain ⟨hleads, hread⟩ := printed_names_iff ⟨1, 0⟩ hemitted
  have hnames : plainCall.kind ∈ Css.namingKinds := by
    simp [plainCall, Css.namingKinds]
  refine ⟨(hleads plainCall hcall hnames fun _ => ?_).mpr ?_, hread herrors⟩
  · decide
  · decide

/-- The first token of `f\ g(x)`, whose name holds a blank. -/
def blankCall : Token := ⟨Css.function, .text "f g", ⟨1, 1, 0⟩, none⟩

theorem tokenize_blankCall :
    Css.tokenize {} "f\\ g(x)" =
      [blankCall, ⟨Css.ident, .text "x", ⟨1, 6, 5⟩, none⟩, ⟨Css.closeParen, .none, ⟨1, 7, 6⟩, none⟩,
        Token.eof.placed ⟨1, 8, 7⟩] := by
  with_unfolding_all rfl

/-- The text of the call does not start with its token again, and is not that of the
tokens. -/
theorem printed_names_blankCall :
    blankCall ∈ Css.tokenize {} "f\\ g(x)" ∧ ¬NodesLead blankCall ∧
      (Component.read ⟨1, 0⟩ (Css.tokenize {} "f\\ g(x)")).errors = [] ∧
      (Component.read ⟨1, 0⟩ (Css.tokenize {} "f\\ g(x)")).value.source = "f g(x)" ∧
      Token.runSource (Css.tokenize {} "f\\ g(x)") = "f\\ g(x)" := by
  refine ⟨?_, ?_, ?_, ?_, ?_⟩
  · rw [tokenize_blankCall]
    exact List.mem_cons_self
  · intro h
    have hplain : isPlainName ['f', ' ', 'g'] = true :=
      isPlainName_of_nodesLead (by simp [Css.namingKinds]) (by decide) h
    exact absurd hplain (by decide)
  · rw [tokenize_blankCall]
    decide +kernel
  · rw [tokenize_blankCall]
    decide +kernel
  · rw [tokenize_blankCall]
    rfl

end StyleTokens

import StyleTokens.Proofs.Json5.ReadBack
import StyleTokens.Proofs.Strategy.Segments
import StyleTokens.Strategy.Pairing
import StyleTokens.Strategy.Primitive

/-!
# Objects of integers are read back

A mapping from texts to integers, written as an object of a data document, is read
back as it is: in the order in which it was written, and without an error.
-/

namespace StyleTokens
namespace Json5

/-!
## The strategy
-/

def mark (place : Kind -> Location) (k : Kind) : Token := ⟨k, .none, place k, none⟩

def memberStrategy (place : Kind -> Location) : Strategy (Option (String × Number)) :=
  (Primitive.string.strategy (Scope.ofKind string) none).pair
    (Primitive.number.strategy (Scope.ofKind number) none)
    (some { test := Predicate.ofKind colon, tokens := [mark place colon] })

def objectShape (place : Kind -> Location) : ListShape :=
  { opens := some (Predicate.ofKind openObject)
    closes := some (Predicate.ofKind closeObject)
    separator := Predicate.ofKind comma
    encoding :=
      { opening := [mark place openObject]
        separator := [mark place comma]
        closing := [mark place closeObject] } }

def objectStrategy (place : Kind -> Location) : Strategy (Mapping String Number) :=
  (memberStrategy place).mapping (objectShape place) Text.quoted

def ofIntegers (m : List (String × Int64)) : Mapping String Number :=
  m.map fun e => (e.1, .integer e.2)

/-!
## Writing
-/

section Object

variable {place : Kind -> Location}

def memberTokens (place : Kind -> Location) (e : String × Int64) : List Token :=
  [.of string (.text e.1), mark place colon, .of number (.number (.integer e.2))]

def commaBefore (place : Kind -> Location) (m : List (String × Int64)) : List Token :=
  if m.isEmpty then [] else [mark place comma]

def bodyTokens (place : Kind -> Location) : List (String × Int64) -> List Token
  | [] => [mark place closeObject]
  | e :: m => memberTokens place e ++ (commaBefore place m ++ bodyTokens place m)

theorem intercalate_memberTokens (m : List (String × Int64)) :
    List.intercalate [mark place comma] (m.map (memberTokens place)) ++
      [mark place closeObject] = bodyTokens place m := by
  induction m with
  | nil => rfl
  | cons e m ih =>
      cases m with
      | nil => simp [bodyTokens, commaBefore]
      | cons e' m =>
          rw [bodyTokens, ← ih]
          simp [commaBefore, List.intercalate]

theorem emit_member (e : String × Int64) :
    (memberStrategy place).emit (some (e.1, .integer e.2)) = .ok (memberTokens place e) := by
  have hnumber : Primitive.number.emit (.integer e.2) number =
      .ok [.of number (.number (.integer e.2))] := by
    have hdialect : number.dialect = dialectName := rfl
    simp [Primitive.number, hdialect]
  show (do
    let front ← Except.ok [Token.of string (.text e.1)]
    let back ← Primitive.number.emit (.integer e.2) number
    return front ++ [mark place colon] ++ back) = _
  rw [hnumber]
  rfl

theorem emit_object (m : List (String × Int64)) :
    (objectStrategy place).emit (ofIntegers m) =
      .ok (mark place openObject :: bodyTokens place m) := by
  have hparts : ((ofIntegers m).map some).mapM (memberStrategy place).emit =
      .ok (m.map (memberTokens place)) := by
    have hpure : (fun e : String × Int64 =>
        (memberStrategy place).emit (some (e.1, .integer e.2))) =
          fun e => pure (memberTokens place e) := funext emit_member
    rw [ofIntegers, List.map_map, List.mapM_map]
    show m.mapM (fun e : String × Int64 =>
      (memberStrategy place).emit (some (e.1, .integer e.2))) = _
    rw [hpure, List.mapM_pure]
    rfl
  show (do
    let parts ← ((ofIntegers m).map some).mapM (memberStrategy place).emit
    return [mark place openObject] ++ List.intercalate [mark place comma] parts ++
      [mark place closeObject]) = _
  rw [hparts, ← intercalate_memberTokens]
  rfl

/-!
## Reading the text
-/

theorem head?_bodyTokens (place : Kind -> Location) (m : List (String × Int64)) :
    exists k, (k = comma ∨ k = closeObject) ∧
      (commaBefore place m ++ bodyTokens place m).head? = some (mark place k) := by
  cases m with
  | nil => exact ⟨closeObject, Or.inr rfl, rfl⟩
  | cons e m => exact ⟨comma, Or.inl rfl, rfl⟩

theorem endsInteger_bodyTokens (m : List (String × Int64)) :
    EndsInteger (Token.runSource (commaBefore place m ++ bodyTokens place m)).toList := by
  rcases head?_bodyTokens place m with ⟨k, hk, hhead⟩
  rcases List.head?_eq_some_iff.mp hhead with ⟨ts, hts⟩
  have hsource : exists c, (c = ',' ∨ c = '\x7d') ∧ (k.encode (k.raw.getD "")).toList = [c] := by
    rcases hk with rfl | rfl
    · exact ⟨',', Or.inl rfl, by decide⟩
    · exact ⟨'\x7d', Or.inr rfl, by decide⟩
  rcases hsource with ⟨c, hc, hsource⟩
  have hfirst : (Token.runSource (commaBefore place m ++ bodyTokens place m)).toList.head? =
      some c := by
    rw [hts, Token.runSource_cons, String.toList_append]
    show ((k.encode (k.raw.getD "")).toList ++ _).head? = some c
    rw [hsource]
    rfl
  constructor
  · intro d hd
    obtain rfl : c = d := Option.some.inj (hfirst.symm.trans hd)
    rcases hc with rfl | rfl <;> decide
  · intro d hd
    obtain rfl : c = d := Option.some.inj (hfirst.symm.trans hd)
    rcases hc with rfl | rfl <;> decide

theorem readsBackAll_comma (m : List (String × Int64))
    (h : dialect.ReadsBackAll (bodyTokens place m)) :
    dialect.ReadsBackAll (commaBefore place m ++ bodyTokens place m) := by
  unfold commaBefore
  split
  · exact h
  · exact ⟨readsBack_punctuation (c := ',') _ (fun _ => rfl) rfl (by decide) _, h⟩

theorem readsBackAll_body (m : List (String × Int64)) :
    dialect.ReadsBackAll (bodyTokens place m) := by
  induction m with
  | nil =>
      exact ⟨readsBack_punctuation (c := '\x7d') _ (fun _ => rfl) rfl (by decide) _, trivial⟩
  | cons e m ih =>
      refine ⟨readsBack_string e.1 _ _, ?_, ?_, readsBackAll_comma m ih⟩
      · exact readsBack_punctuation (c := ':') _ (fun _ => rfl) rfl (by decide) _
      · exact readsBack_integer e.2 _ (endsInteger_bodyTokens m)

theorem tokenize_object (place : Kind -> Location) (o : Options) (m : List (String × Int64)) :
    (tokenize o (Token.runSource (mark place openObject :: bodyTokens place m))).map
      Token.unplaced =
        (mark place openObject :: bodyTokens place m).map Token.unplaced ++ [.eof] := by
  have hall : dialect.ReadsBackAll (mark place openObject :: bodyTokens place m) := by
    refine ⟨?_, readsBackAll_body m⟩
    exact readsBack_punctuation (c := '\x7b') _ (fun _ => rfl) rfl (by decide) _
  exact hall.tokensFrom o .start

/-!
## Reading the tokens

Where the tokens stand shows in errors only, so what is read is told from the
tokens without their places.
-/

theorem eq_of_unplaced_mark {t : Token} {k : Kind} (h : t.unplaced = (mark place k).unplaced) :
    exists l, t = ⟨k, .none, l, none⟩ :=
  Token.eq_of_unplaced (p := .none) (by simp) h

theorem read_string {args : Args} (hquote : args.quoteStrings = false) (s : String)
    (l : Location) :
    ((Primitive.string.strategy (Scope.ofKind string) none).read args false
      [⟨string, .text s, l, none⟩]).outcome = .success s := by
  have htext : ("" ++ if args.quoteStrings then
      Token.source ⟨string, .text s, l, none⟩ else Token.text ⟨string, .text s, l, none⟩) = s := by
    rw [hquote, if_neg (by decide), String.empty_append]
    rfl
  show (⟨"" ++ _, []⟩ : Outcome StrategyError String) = _
  rw [htext]
  rfl

def SpellsMember (place : Kind -> Location) (seg : List Token) (e : String × Int64) : Prop :=
  seg.map Token.unplaced = (memberTokens place e).map Token.unplaced

theorem SpellsMember.readSegment {args : Args} (hquote : args.quoteStrings = false)
    {e : String × Int64} {seg : List Token} (hseg : SpellsMember place seg e) :
    (memberStrategy place).readSegment args false seg = .success (some (e.1, .integer e.2)) := by
  rcases List.map_eq_cons_iff.mp hseg with ⟨s, _, rfl, hs, hseg⟩
  rcases List.map_eq_cons_iff.mp hseg with ⟨c, _, rfl, hc, hseg⟩
  rcases List.map_eq_cons_iff.mp hseg with ⟨n, _, rfl, hn, hseg⟩
  obtain rfl := List.map_eq_nil_iff.mp hseg
  rcases Token.eq_of_unplaced (p := .text e.1) (by simp) hs with ⟨l, rfl⟩
  rcases Token.eq_of_unplaced (p := .none) (by simp) hc with ⟨l', rfl⟩
  rcases Token.eq_of_unplaced (p := .number (.integer e.2)) (by simp) hn with ⟨l'', rfl⟩
  -- Dividing at the colon leaves the text in front of it and the number behind it.
  have hparts : forall first : Outcome StrategyError String,
      ((Primitive.string.strategy (Scope.ofKind string) none).read args false
        [⟨string, .text e.1, l, none⟩]).outcome = first ->
      (memberStrategy place).readSegment args false
        [⟨string, .text e.1, l, none⟩, ⟨colon, .none, l', none⟩,
          ⟨number, .number (.integer e.2), l'', none⟩] =
            ⟨some (first.value, .integer e.2), first.errors ++ [] ++ []⟩ := by
    rintro _ rfl
    rfl
  exact hparts _ (read_string hquote e.1 l)

theorem startsStop_bodyTokens {m : List (String × Int64)} {ts : List Token}
    (hts : ts.map Token.unplaced =
      (commaBefore place m ++ bodyTokens place m).map Token.unplaced ++ [.eof]) :
    (objectShape place).StartsStop ts := by
  rcases head?_bodyTokens place m with ⟨k, hk, hhead⟩
  rcases List.head?_eq_some_iff.mp hhead with ⟨us, hus⟩
  rw [hus, List.map_cons, List.cons_append] at hts
  rcases List.map_eq_cons_iff.mp hts with ⟨t, ts, rfl, ht, _⟩
  rcases eq_of_unplaced_mark ht with ⟨l, rfl⟩
  refine ⟨_, ts, rfl, ?_, ?_⟩
  · rcases hk with rfl | rfl <;> rfl
  · rcases hk with rfl | rfl <;> rfl

theorem dropIf_commaBefore {m : List (String × Int64)} {ts : List Token}
    (hts : ts.map Token.unplaced =
      (commaBefore place m ++ bodyTokens place m).map Token.unplaced ++ [.eof]) :
    (Queue.dropIf (objectShape place).isSeparator ts).map Token.unplaced =
      (bodyTokens place m).map Token.unplaced ++ [.eof] := by
  cases m with
  | nil =>
      rcases List.map_eq_cons_iff.mp hts with ⟨t, ts, rfl, ht, _⟩
      rcases eq_of_unplaced_mark ht with ⟨l, rfl⟩
      exact hts
  | cons e m =>
      rcases List.map_eq_cons_iff.mp hts with ⟨t, ts, rfl, ht, hrest⟩
      rcases eq_of_unplaced_mark ht with ⟨l, rfl⟩
      exact hrest

theorem SpellsMember.not_isStop {e : String × Int64} {seg : List Token}
    (hseg : SpellsMember place seg e) :
    forall t, t ∈ seg -> (objectShape place).isStop t = false := by
  intro t ht
  unfold SpellsMember at hseg
  have hmem : t.unplaced ∈ (memberTokens place e).map Token.unplaced := by
    rw [← hseg]
    exact List.mem_map_of_mem ht
  have hstop : (objectShape place).isStop t = (objectShape place).isStop t.unplaced := by
    cases t
    rfl
  rw [hstop]
  simp only [memberTokens, List.map_cons, List.map_nil, List.mem_cons, List.not_mem_nil,
    or_false] at hmem
  rcases hmem with h | h | h <;> rw [h] <;> rfl

theorem cut_bodyTokens (start : Location) (m : List (String × Int64)) {ts : List Token}
    (hts : ts.map Token.unplaced = (bodyTokens place m).map Token.unplaced ++ [.eof]) :
    exists segments rest, ((objectShape place).cut start ts).parts = (segments, [], rest) ∧
      List.Forall₂ (SpellsMember place) segments m ∧ rest.map Token.unplaced = [.eof] := by
  induction m generalizing ts with
  | nil =>
      rcases List.map_eq_cons_iff.mp hts with ⟨t, rest, rfl, ht, hrest⟩
      rcases eq_of_unplaced_mark ht with ⟨l, rfl⟩
      exact ⟨[], rest, ListShape.cut_end rest rfl, .nil, hrest⟩
  | cons e m ih =>
      rw [bodyTokens, List.map_append, List.append_assoc] at hts
      rcases List.map_eq_append_iff.mp hts with ⟨seg, tail, rfl, hseg, htail⟩
      rcases ih (dropIf_commaBefore htail) with ⟨segments, rest, hcut, hsegments, hrest⟩
      refine ⟨seg :: segments, rest, ?_, .cons hseg hsegments, hrest⟩
      have hstop := SpellsMember.not_isStop hseg
      rcases List.map_eq_cons_iff.mp hseg with ⟨t, seg, rfl, ht, _⟩
      rcases Token.eq_of_unplaced (p := .text e.1) (by simp) ht with ⟨l, rfl⟩
      rw [ListShape.cut_segment rfl rfl hstop (startsStop_bodyTokens htail), hcut]

theorem readSegment_members {args : Args} (hquote : args.quoteStrings = false)
    {segments : List (List Token)} {m : List (String × Int64)}
    (h : List.Forall₂ (SpellsMember place) segments m) :
    segments.map ((memberStrategy place).readSegment args false) =
      (ofIntegers m).map fun e => .success (some e) := by
  induction h with
  | nil => rfl
  | cons hseg _ ih =>
      rw [List.map_cons, ih, hseg.readSegment hquote]
      rfl

theorem isSteady_memberStrategy : (memberStrategy place).IsSteady :=
  Strategy.isSteady_pair (Primitive.isSteady_strategy _ _ _) (Primitive.isSteady_strategy _ _ _) _

theorem keys_ofIntegers (m : List (String × Int64)) :
    (ofIntegers m).map Prod.fst = m.map Prod.fst := by
  rw [ofIntegers, List.map_map]
  rfl

theorem read_bodyTokens {m : List (String × Int64)} (hkeys : (m.map Prod.fst).Nodup)
    {args : Args} (hquote : args.quoteStrings = false) (failed : Bool) (l : Location)
    {ts : List Token}
    (hts : ts.map Token.unplaced = (bodyTokens place m).map Token.unplaced ++ [.eof]) :
    exists rest,
      ((objectStrategy place).read args failed (⟨openObject, .none, l, none⟩ :: ts)).parts =
        (ofIntegers m, [], rest) ∧
      rest.map Token.unplaced = [.eof] := by
  rcases cut_bodyTokens l m hts with ⟨segments, rest, hcut, hsegments, hrest⟩
  refine ⟨rest, ?_, hrest⟩
  have hentries : (((memberStrategy place).entries (objectShape place) args failed
      (⟨openObject, .none, l, none⟩ :: ts))).parts =
        ((memberStrategy place).readSegments args failed ((objectShape place).cut l ts).parts.1,
          ((objectShape place).cut l ts).parts.2) := rfl
  rw [hcut, Strategy.readSegments_eq_map isSteady_memberStrategy,
    readSegment_members hquote hsegments] at hentries
  rcases Prod.mk.inj hentries with ⟨hvalue, hentries⟩
  rcases Prod.mk.inj hentries with ⟨herrors, hleft⟩
  have hpairs : ((ofIntegers m).map Prod.fst).Nodup := by
    rw [keys_ofIntegers]
    exact hkeys
  have hworded : (((ofIntegers m).map fun e =>
      (Outcome.success (some e) : Outcome StrategyError _)).map Outcome.worded) =
        (ofIntegers m).map fun e => Outcome.success (some e) := by
    rw [List.map_map]
    rfl
  simp only [objectStrategy, Strategy.mapping, Reading.parts, hvalue, herrors, hleft, hworded]
  rw [Mapping.build_of_nodup Text.quoted _ hpairs]
  rfl

/-- An object of integers under different keys is written, and its text is read
back as the same mapping without an error, up to the end of the text. -/
theorem read_object {m : List (String × Int64)} (hkeys : (m.map Prod.fst).Nodup) {args : Args}
    (hquote : args.quoteStrings = false) (place : Kind -> Location) (o : Options)
    (failed : Bool) :
    exists ts, (objectStrategy place).emit (ofIntegers m) = .ok ts ∧
      exists rest,
        ((objectStrategy place).read args failed (tokenize o (Token.runSource ts))).parts =
          (ofIntegers m, [], rest) ∧
        rest.map Token.unplaced = [.eof] := by
  refine ⟨_, emit_object m, ?_⟩
  have htokens := tokenize_object place o m
  rcases List.map_eq_cons_iff.mp htokens with ⟨t, ts, hinput, ht, hts⟩
  rcases eq_of_unplaced_mark ht with ⟨l, rfl⟩
  rw [hinput]
  exact read_bodyTokens hkeys hquote failed l hts

/-- An empty key, a key of characters that are escaped or hidden, and the integers
at both ends. -/
def extremes : List (String × Int64) :=
  [("", Int64.maxValue), ("\"\\\n\r\t\x00'", Int64.minValue)]

theorem read_object_extremes :
    (extremes.map Prod.fst).Nodup ∧ ({} : Args).quoteStrings = false ∧
      exists ts, (objectStrategy fun _ => .unknown).emit (ofIntegers extremes) = .ok ts ∧
        exists rest,
          ((objectStrategy fun _ => .unknown).read {} false
            (tokenize {} (Token.runSource ts))).parts = (ofIntegers extremes, [], rest) ∧
          rest.map Token.unplaced = [.eof] := by
  have hkeys : (extremes.map Prod.fst).Nodup := by decide
  exact ⟨hkeys, rfl, read_object hkeys rfl (fun _ => .unknown) {} false⟩

end Object

end Json5
end StyleTokens

import StyleTokens.Proofs.Dialect.Located

/-!
# How an engine sweeps a text

Nothing is asked of the readers but that they do not go back.  A turn either moves on with
the reader that claims the cursor, or passes over one character with a token of the fallback
kind.  The turns therefore end, after one for each character at most, with the token for the
end of the text, and a character that no reader reads has a token of the fallback kind at its
place.
-/

namespace StyleTokens
namespace Engine

variable (e : Engine) (o : Options)

/-!
## One turn
-/

/-- The reader that claims the cursor of the state moves on to where the turn ends. -/
structure ReadsOn (r : Reader) (s : State) : Prop where
  claims : e.claimant? s.cursor = some r
  moves : s.cursor.location.offset < (readBy o r s).cursor.location.offset
  turn_eq : e.turn o s = readBy o r s

theorem turn_cases (s : State) {c : Char} {cs : List Char} (h : s.cursor.rest = c :: cs) :
    (exists r, e.ReadsOn o r s) ∨
      exists ts, e.turn o s =
        ⟨e.fallbackToken c s.cursor.location :: (ts ++ s.emitted), cs,
          s.cursor.location.step c⟩ := by
  have hover : forall s' : State, s'.cursor = s.cursor -> e.passOver s' =
      ⟨e.fallbackToken c s.cursor.location :: s'.emitted, cs, s.cursor.location.step c⟩ := by
    rintro ⟨emitted, rest, l⟩ hcursor
    obtain rfl : rest = c :: cs := (congrArg Cursor.rest hcursor).trans h
    obtain rfl : l = s.cursor.location := congrArg Cursor.location hcursor
    exact e.passOver_cons emitted c cs _
  cases hclaims : e.claimant? s.cursor with
  | none =>
      refine Or.inr ⟨[], ?_⟩
      simp only [turn, hclaims]
      exact hover s rfl
  | some r =>
      by_cases hstays : (readBy o r s).cursor.location.offset = s.cursor.location.offset
      · -- the reader keeps what it emitted, and the character is passed over
        refine Or.inr ⟨(r.read o s.emitted s.cursor).tokens.reverse, ?_⟩
        simp only [turn, hclaims]
        rw [if_pos hstays]
        exact hover _ (readBy_cursor_of_offset hstays)
      · have hle : s.cursor.location.offset ≤ (readBy o r s).cursor.location.offset := by
          rw [readBy, Cursor.moveTo_offset]
          exact Nat.le_add_right _ _
        refine Or.inl ⟨r, hclaims, Nat.lt_of_le_of_ne hle (Ne.symm hstays), ?_⟩
        simp only [turn, hclaims]
        exact if_neg hstays

theorem offset_lt_turn {s : State} (h : s.cursor.rest ≠ []) :
    s.cursor.location.offset < (e.turn o s).cursor.location.offset := by
  obtain ⟨c, cs, hrest⟩ := List.exists_cons_of_ne_nil h
  rcases e.turn_cases o s hrest with ⟨r, hr⟩ | ⟨ts, hturn⟩
  · rw [hr.turn_eq]
    exact hr.moves
  · rw [hturn, Location.step_offset]
    exact Nat.lt_succ_self _

theorem emitted_turn {s : State} (h : s.cursor.rest ≠ []) :
    exists ts, (e.turn o s).emitted = ts ++ s.emitted := by
  obtain ⟨c, cs, hrest⟩ := List.exists_cons_of_ne_nil h
  rcases e.turn_cases o s hrest with ⟨r, hr⟩ | ⟨ts, hturn⟩
  · exact ⟨_, congrArg State.emitted hr.turn_eq⟩
  · exact ⟨e.fallbackToken c s.cursor.location :: ts, congrArg State.emitted hturn⟩

theorem cursor_turn {s : State} (h : s.cursor.rest ≠ []) :
    exists front, front ++ (e.turn o s).cursor.rest = s.cursor.rest ∧
      (e.turn o s).cursor.location = s.cursor.location.past front := by
  obtain ⟨c, cs, hrest⟩ := List.exists_cons_of_ne_nil h
  rcases e.turn_cases o s hrest with ⟨r, hr⟩ | ⟨ts, hturn⟩
  · rcases (r.read o s.emitted s.cursor).rest_suffix with ⟨front, hfront⟩
    refine ⟨front, ?_, ?_⟩
    · rw [hr.turn_eq, readBy_rest, hfront]
    · rw [hr.turn_eq, readBy, Cursor.moveTo_of_suffix hfront]
  · exact ⟨[c], by rw [hturn, hrest]; rfl, congrArg (fun s => s.cursor.location) hturn⟩

/-!
## All turns
-/

/-- A number of turns leads from a state to another one. -/
inductive Reaches (e : Engine) (o : Options) : Nat -> State -> State -> Prop where
  | refl (s : State) : Reaches e o 0 s s
  | turn {n : Nat} {s s' : State} (more : s.cursor.rest ≠ [])
      (others : Reaches e o n (e.turn o s) s') : Reaches e o (n + 1) s s'

theorem exists_reaches_run (s : State) :
    exists n, n ≤ s.cursor.rest.length ∧ e.Reaches o n s (e.run o s) ∧
      (e.run o s).cursor.rest = [] := by
  induction s using run.induct e o with
  | case1 s hend =>
      rw [e.run_of_eof o hend]
      exact ⟨0, Nat.zero_le _, .refl s, hend⟩
  | case2 s hmore ih =>
      rcases ih with ⟨n, hn, hreaches, hend⟩
      have hshorter := e.length_turn_lt o hmore
      rw [e.run_turn o hmore]
      exact ⟨n + 1, by omega, .turn hmore hreaches, hend⟩

theorem emitted_run (s : State) : exists ts, (e.run o s).emitted = ts ++ s.emitted := by
  induction s using run.induct e o with
  | case1 s hend => exact ⟨[], congrArg State.emitted (e.run_of_eof o hend)⟩
  | case2 s hmore ih =>
      rcases ih with ⟨ts, hts⟩
      rcases e.emitted_turn o hmore with ⟨us, hus⟩
      rw [e.run_turn o hmore]
      exact ⟨ts ++ us, by rw [hts, hus, List.append_assoc]⟩

theorem Reaches.cursor {e : Engine} {o : Options} {n : Nat} {s s' : State}
    (h : e.Reaches o n s s') :
    exists front, front ++ s'.cursor.rest = s.cursor.rest ∧
      s'.cursor.location = s.cursor.location.past front := by
  induction h with
  | refl s => exact ⟨[], rfl, rfl⟩
  | turn hmore _ ih =>
      rcases e.cursor_turn o hmore with ⟨front, hfront, hlocation⟩
      rcases ih with ⟨others, hothers, hlast⟩
      refine ⟨front ++ others, ?_, ?_⟩
      · rw [List.append_assoc, hothers, hfront]
      · rw [hlast, hlocation, Location.past_append]

/-- Some reader reads the character at an offset in a turn behind the state. -/
def ReadFrom (s : State) (offset : Nat) : Prop :=
  exists n s' r, e.Reaches o n s s' ∧ s'.cursor.rest ≠ [] ∧ e.ReadsOn o r s' ∧
    s'.cursor.location.offset ≤ offset ∧ offset < (e.turn o s').cursor.location.offset

theorem ReadFrom.of_turn {e : Engine} {o : Options} {s : State} {offset : Nat}
    (hmore : s.cursor.rest ≠ []) (h : e.ReadFrom o (e.turn o s) offset) :
    e.ReadFrom o s offset := by
  rcases h with ⟨n, s', r, hreaches, hread⟩
  exact ⟨n + 1, s', r, .turn hmore hreaches, hread⟩

/-- A character that is left is read by a reader, or has a token of the fallback kind. -/
theorem read_or_fallback (s : State) {front : List Char} {c : Char} {back : List Char}
    (h : s.cursor.rest = front ++ c :: back) :
    e.ReadFrom o s (s.cursor.location.offset + front.length) ∨
      e.fallbackToken c (s.cursor.location.past front) ∈ (e.run o s).emitted := by
  induction s using run.induct e o generalizing front with
  | case1 s hend =>
      rw [hend] at h
      exact absurd h (by simp)
  | case2 s hmore ih =>
      rw [e.run_turn o hmore]
      rcases e.cursor_turn o hmore with ⟨moved, hmoved, hlocation⟩
      have hoffset : (e.turn o s).cursor.location.offset =
          s.cursor.location.offset + moved.length := by
        rw [hlocation, Location.past_offset]
      by_cases hbehind : moved.length ≤ front.length
      · -- the character is behind the turn
        obtain ⟨later, rfl⟩ : moved <+: front := by
          apply List.prefix_of_prefix_length_le _ _ hbehind
          · exact s.cursor.rest
          · exact ⟨_, hmoved⟩
          · exact ⟨_, h.symm⟩
        have hrest : (e.turn o s).cursor.rest = later ++ c :: back := by
          rw [h, List.append_assoc] at hmoved
          exact List.append_cancel_left hmoved
        have hlater := ih hrest
        rw [hlocation, Location.past_offset, Nat.add_assoc, ← List.length_append,
          ← Location.past_append] at hlater
        exact hlater.imp (ReadFrom.of_turn hmore) id
      · -- the turn moves over the character
        obtain ⟨d, ds, hcons⟩ := List.exists_cons_of_ne_nil hmore
        rcases e.turn_cases o s hcons with ⟨r, hr⟩ | ⟨ts, hturn⟩
        · refine Or.inl ⟨0, s, r, .refl s, hmore, hr, Nat.le_add_right _ _, ?_⟩
          omega
        · have hone : moved.length = 1 := by
            rw [hturn, Location.step_offset] at hoffset
            omega
          obtain rfl : front = [] := List.eq_nil_of_length_eq_zero (by omega)
          obtain rfl : d = c := (List.cons.inj (hcons.symm.trans h)).1
          rcases e.emitted_run o (e.turn o s) with ⟨us, hus⟩
          right
          rw [hus, hturn]
          exact List.mem_append_right us List.mem_cons_self

/-!
## The tokens of a text
-/

/-- An engine gets through a text, whatever its readers do. -/
structure Sweeps (text : String) : Prop where
  /-- The cursor stands in the text where its location says, and every turn moves it on. -/
  advances : forall n s, e.Reaches o n (e.start text) s ->
    (exists front, front ++ s.cursor.rest = e.prepare text.toList ∧
      s.cursor.location = .behind (e.prepare text.toList) front.length) ∧
    (s.cursor.rest ≠ [] -> s.cursor.location.offset < (e.turn o s).cursor.location.offset)
  /-- The turns end, and the tokens are those emitted in them, with the end of the text. -/
  ends : exists n s, n ≤ (e.prepare text.toList).length ∧ e.Reaches o n (e.start text) s ∧
    s.cursor.rest = [] ∧
    e.tokenize o text = s.emitted.reverse ++
      [Token.eof.placed (.behind (e.prepare text.toList) (e.prepare text.toList).length)]
  /-- A character that no reader reads has a token of the fallback kind at its place. -/
  fills : forall front c back, e.prepare text.toList = front ++ c :: back ->
    e.ReadFrom o (e.start text) front.length ∨
      e.fallbackToken c (.behind (e.prepare text.toList) front.length) ∈ e.tokenize o text

theorem Reaches.location {e : Engine} {o : Options} {n : Nat} {text : String} {s : State}
    (h : e.Reaches o n (e.start text) s) :
    exists front, front ++ s.cursor.rest = e.prepare text.toList ∧
      s.cursor.location = .behind (e.prepare text.toList) front.length := by
  rcases h.cursor with ⟨front, hfront, hlocation⟩
  refine ⟨front, hfront, ?_⟩
  rw [hlocation, ← show front ++ s.cursor.rest = e.prepare text.toList from hfront]
  exact Location.start_past_append front s.cursor.rest

/-- Every engine gets through every text: each turn moves on, the last token is the end of
the text, and no character is left without a reader or a token of its own. -/
theorem sweeps (e : Engine) (o : Options) (text : String) : e.Sweeps o text where
  advances n s h := ⟨h.location, e.offset_lt_turn o⟩
  ends := by
    rcases e.exists_reaches_run o (e.start text) with ⟨n, hn, hreaches, hend⟩
    rcases hreaches.location with ⟨front, hfront, hlocation⟩
    rw [hend, List.append_nil] at hfront
    refine ⟨n, _, hn, hreaches, hend, ?_⟩
    rw [tokenize, tokensFrom, hlocation, hfront, List.reverse_cons]
  fills front c back h := by
    have hstart : (e.start text).cursor.location.past front =
        .behind (e.prepare text.toList) front.length := by
      rw [h]
      exact Location.start_past_append front (c :: back)
    have hoffset : (e.start text).cursor.location.offset + front.length = front.length :=
      Nat.zero_add _
    have hread := e.read_or_fallback o (e.start text) h
    rw [hstart, hoffset] at hread
    refine hread.imp id fun hmem => ?_
    rw [tokenize, tokensFrom, List.mem_reverse]
    exact List.mem_cons_of_mem _ hmem

/-- One reader claims every `x` and stays at it, and another one emits at every `y` without
moving on; both characters are passed over. -/
example :
    let word : Kind := { dialect := "words", name := "word" }
    let stuck : Reader :=
      { id := "stuck"
        claims := fun c => c.rest.head? == some 'x'
        read := fun _ _ c => ⟨[], c.rest, List.suffix_refl c.rest⟩ }
    let eager : Reader :=
      { id := "eager"
        claims := fun c => c.rest.head? == some 'y'
        read := fun _ _ c =>
          ⟨[(Token.bare word).placed c.location], c.rest, List.suffix_refl c.rest⟩ }
    let words : Engine := { readers := [stuck, eager], fallback := .unknown, prepare := id }
    (words.tokenize {} "xay").map (fun t => (t.kind.name, t.location.offset)) =
      [("unknown", 0), ("unknown", 1), ("word", 2), ("unknown", 2), ("eof", 3)] := by
  decide +kernel

end Engine
end StyleTokens

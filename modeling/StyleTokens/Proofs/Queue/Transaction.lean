import StyleTokens.Proofs.Structure.Ending
import StyleTokens.Queue.Program

/-!
# Transactions on queues

A program is orderly if every split is committed at most once and its queue is not used
after that.  An orderly program never misuses a split, at any depth of splits, attempts
and slices in each other, and every step of it leaves an end of the queue it is taken on.
What a step with inner steps leaves is decided by how these end: a split without a commit
and an attempt with errors take nothing, and a slice always ends at its stop token.
-/

namespace StyleTokens
namespace Queue

/-!
## Readers
-/

namespace Reader

theorem block_read_suffix (n : Nesting) (closing : Kind) (ts : List Token) :
    (Block.read n closing ts).rest <:+ ts := by
  cases ts with
  | nil => exact List.suffix_refl []
  | cons t ts =>
      exact (readContents n _ t.location ts).rest_suffix.trans (List.suffix_cons t ts)

theorem call_read_suffix (n : Nesting) (ts : List Token) : (Call.read n ts).rest <:+ ts := by
  have hpoll := pollIf_suffix (Predicate.ofKind Css.function) ts
  unfold Call.read
  split
  · rename_i rest hrest
    rw [hrest] at hpoll
    exact hpoll
  · rename_i t rest hrest
    rw [hrest] at hpoll
    exact (readContents n (.call t.text) (Queue.location ts) rest).rest_suffix.trans hpoll

theorem declaration_read_suffix (n : Nesting) (ts : List Token) :
    (Declaration.read n ts).rest <:+ ts := by
  cases ts with
  | nil => exact List.suffix_refl []
  | cons t ts =>
      have hblank := (skipBlank_suffix ts).trans (List.suffix_cons t ts)
      have hpoll := (pollIf_suffix (Predicate.ofKind Css.colon) (skipBlank ts)).trans hblank
      rw [Declaration.read]
      split
      · split
        · rename_i rest hrest
          rw [hrest] at hpoll
          exact hpoll
        · rename_i colon rest hrest
          rw [hrest] at hpoll
          exact (readRun n Token.isEof (skipBlank rest)).rest_suffix.trans
            ((skipBlank_suffix rest).trans hpoll)
      · exact List.suffix_cons t ts

theorem readAt_suffix (n : Nesting) (ts : List Token) : (Rule.readAt n ts).rest <:+ ts := by
  have hpoll := pollIf_suffix (Predicate.ofKind Css.atKeyword) ts
  unfold Rule.readAt
  split
  · rename_i rest hrest
    rw [hrest] at hpoll
    exact hpoll
  · rename_i t rest hrest
    rw [hrest] at hpoll
    rw [Rule.readNamed_rest]
    exact (Prelude.read_rest_suffix n true rest).trans hpoll

theorem read_suffix (n : Nesting) (r : Reader) (ts : List Token) :
    (r.read n ts).rest <:+ ts := by
  cases r with
  | component =>
      cases ts with
      | nil => exact List.suffix_refl []
      | cons t ts => exact (readComponent_rest_suffix n t ts).trans (List.suffix_cons t ts)
  | block closing => exact block_read_suffix n closing ts
  | call => exact call_read_suffix n ts
  | declaration => exact declaration_read_suffix n ts
  | qualifiedRule =>
      show (Rule.readQualified n ts).rest <:+ ts
      rw [Rule.readQualified_rest]
      exact Prelude.read_rest_suffix n false ts
  | namedRule => exact readAt_suffix n ts
  | rules =>
      show (Rule.readAll n ts).rest <:+ ts
      rw [Rule.readAll_rest]
      exact onward_suffix Token.isEof ts
  | styleBlock =>
      show (StyleBlock.read n ts).rest <:+ ts
      rw [StyleBlock.read_rest]
      exact onward_suffix Token.isEof ts

end Reader

/-!
## Orderly programs
-/

namespace Step

def isCommit : Step -> Bool
  | commit => true
  | _ => false

def usesQueue : Step -> Bool
  | commit => false
  | isCommitted => false
  | depth => false
  | _ => true

/-- May the step be taken?  A commit needs a split that is not committed; what asks for
tokens needs a queue that is none of a committed split. -/
def isDue (s : Step) (committed : Option Bool) : Bool :=
  if s.isCommit then committed == some false else !s.usesQueue || committed != some true

/-- Whether the queue is that of a committed split behind the step. -/
def mark (committed : Option Bool) (s : Step) : Option Bool :=
  if s.isCommit then some true else committed

def inner? (s : Step) (f : Frame) : Option (List Step × Frame) :=
  match s with
  | split steps => some (steps, .ofSplit f.window)
  | attempt steps _ => some (steps, .ofQueue f.window)
  | slice stop steps => some (steps, .ofQueue (f.window.slice stop))
  | _ => none

end Step

mutual

def Step.orderly (s : Step) : Bool :=
  match s with
  | .split steps => orderly (some false) steps
  | .attempt steps _ => orderly none steps
  | .slice _ steps => orderly none steps
  | _ => true

/-- Is every split committed at most once, and its queue not used after that? -/
def orderly (committed : Option Bool) (steps : List Step) : Bool :=
  match steps with
  | [] => true
  | s :: steps => s.isDue committed && s.orderly && orderly (s.mark committed) steps

end

/-!
## Runs
-/

namespace Result

/-- The run ends, and moves on over the tokens with this mark of a split. -/
def EndsOn (r : Result) (w : Window) (committed : Option Bool) : Prop :=
  exists g, r.frame = .ok g ∧ w.MovesTo g.window ∧ g.committed = committed

theorem frame_andThen {r : Result} {g : Frame} (h : r.frame = .ok g) (next : Frame -> Result) :
    (r.andThen next).frame = (next g).frame := by
  rw [andThen, h]

theorem frame_opened {f : Frame} (h : f.isClosed = false) (start : Frame) :
    (opened f start).frame = .ok start := by
  rw [opened, if_neg (by simp [h])]
  rfl

theorem frame_split {f i : Frame} {run : Frame -> Result} (hopen : f.isClosed = false)
    (hi : (run (.ofSplit f.window)).frame = .ok i) : (split f run).frame = .ok (f.settle i) := by
  rw [split, frame_andThen (frame_opened hopen _), frame_andThen hi]
  rfl

/-- An attempt is a split that is committed if its result is valid. -/
theorem frame_attempt {f i : Frame} {valid : Bool} {run : Frame -> Result}
    (hopen : f.isClosed = false) (hi : (run (.ofQueue f.window)).frame = .ok i) :
    (attempt f valid run).frame =
      .ok { f with window := if valid then i.window else f.window } := by
  have hcopy : ((opened (.ofSplit f.window) (.ofQueue f.window)).andThen fun inside =>
      (run inside).andThen fun inside =>
        .ofFrame (if valid then Frame.commit ⟨inside.window, some false⟩
          else .ok ⟨inside.window, some false⟩)).frame = .ok ⟨i.window, some valid⟩ := by
    rw [frame_andThen (frame_opened rfl _), frame_andThen hi]
    cases valid <;> rfl
  rw [attempt, frame_split hopen hcopy]
  cases valid <;> rfl

end Result

namespace Step

variable {n : Nesting} {f : Frame}

theorem not_isClosed_of_isDue {s : Step} (h : s.isDue f.committed = true)
    (hcommit : s.isCommit = false) (huses : s.usesQueue = true) : f.isClosed = false := by
  simpa [isDue, hcommit, huses, Frame.isClosed] using h

/-- What a step without inner steps answers on a list of tokens, and what it leaves of it. -/
def onTokens (n : Nesting) (s : Step) (ts : List Token) : Answer × List Token :=
  match s with
  | poll => (.token ts.head?, ts.tail)
  | peek => (.token ts.head?, ts)
  | peekNth i => (.token ts[i]?, ts)
  | pollIf p => (.token (Queue.pollIf p ts).1, (Queue.pollIf p ts).2)
  | peekIs k => (.bool (ts.head?.any fun t => t.is k), ts)
  | skipBlank => (.nothing, Queue.skipBlank ts)
  | state => (.state (!ts.isEmpty) (Queue.isEol ts) (Queue.isEof ts), ts)
  | find p => (.place (Queue.find? p ts), ts)
  | rest => (.sources (ts.map Token.source), ts)
  | read r => (.node (r.read n ts).outcome, (r.read n ts).rest)
  | _ => (.nothing, ts)

/-- On a position, a step without inner steps does what it does on the tokens left. -/
theorem runPlain_eq (n : Nesting) (s : Step) (f : Frame) :
    exists w, s.runPlain n f = .done s (s.onTokens n f.left).1 { f with window := w } ∧
      w.left = (s.onTokens n f.left).2 ∧ f.window.MovesTo w := by
  have hstays := Window.MovesTo.refl f.window
  cases s with
  | poll =>
      refine ⟨f.window.poll.2, ?_, f.window.left_poll, f.window.movesTo_poll⟩
      rw [onTokens, Frame.left, <- Window.poll_fst]
      rfl
  | pollIf p =>
      have hpoll := Window.pollIf_eq p f.window
      refine ⟨(f.window.pollIf p).2, ?_, hpoll.2, Window.movesTo_pollIf p f.window⟩
      rw [onTokens, Frame.left, <- hpoll.1]
      rfl
  | skipBlank => exact ⟨_, rfl, f.window.left_skipBlank, f.window.movesTo_skipBlank⟩
  | read r =>
      have hsuffix : (r.read n f.left).rest <:+ f.window.left := r.read_suffix n f.left
      exact ⟨_, rfl, Window.left_moveTo hsuffix, Window.movesTo_moveTo hsuffix⟩
  | peek =>
      refine ⟨f.window, ?_, rfl, hstays⟩
      rw [runPlain, Window.peek?_eq]
      rfl
  | peekNth i =>
      refine ⟨f.window, ?_, rfl, hstays⟩
      rw [runPlain, Window.peekNth?_eq]
      rfl
  | peekIs k =>
      refine ⟨f.window, ?_, rfl, hstays⟩
      rw [runPlain, Window.peekIs, Window.peek?_eq]
      rfl
  | state =>
      refine ⟨f.window, ?_, rfl, hstays⟩
      rw [runPlain, Window.canPoll_eq, Window.isEol, Window.isEof, Window.peek?_eq]
      rfl
  | _ => exact ⟨f.window, rfl, rfl, hstays⟩

theorem run_of_inner?_eq_none {s : Step} (hinner : s.inner? f = none) (huses : s.usesQueue = true)
    (hopen : f.isClosed = false) : s.run n f = s.runPlain n f := by
  cases s with
  | split steps => cases hinner
  | attempt steps messages => cases hinner
  | slice stop steps => cases hinner
  | commit => cases huses
  | isCommitted => cases huses
  | depth => cases huses
  | _ => simp [run, hopen]

theorem endsOn_run_of_inner?_eq_none {s : Step} (hinner : s.inner? f = none)
    (hdue : s.isDue f.committed = true) : (s.run n f).EndsOn f.window (s.mark f.committed) := by
  cases s with
  | commit =>
      have hsplit : f.committed = some false := by simpa [isDue, isCommit] using hdue
      refine ⟨{ f with committed := some true }, ?_, .refl f.window, rfl⟩
      rw [run, Frame.commit, hsplit]
      rfl
  | isCommitted => exact ⟨f, by rw [run]; rfl, .refl f.window, rfl⟩
  | depth => exact ⟨f, by rw [run]; rfl, .refl f.window, rfl⟩
  | split steps => cases hinner
  | attempt steps messages => cases hinner
  | slice stop steps => cases hinner
  | _ =>
      rw [run_of_inner?_eq_none hinner rfl (not_isClosed_of_isDue hdue rfl rfl)]
      obtain ⟨w, hrun, -, hmoves⟩ := runPlain_eq n _ f
      exact ⟨_, congrArg Result.frame hrun, hmoves, rfl⟩

theorem frame_split {steps : List Step} {i : Frame} (hopen : f.isClosed = false)
    (hi : (runAll n steps (.ofSplit f.window)).frame = .ok i) :
    ((split steps).run n f).frame = .ok (f.settle i) := by
  rw [run, Result.frame_andThen rfl, Result.frame_andThen (Result.frame_split hopen hi)]
  rfl

theorem frame_attempt {steps : List Step} {messages : List String} {i : Frame}
    (hopen : f.isClosed = false) (hi : (runAll n steps (.ofQueue f.window)).frame = .ok i) :
    ((attempt steps messages).run n f).frame =
      .ok { f with
        window := if (Outcome.withMessages () messages).isValid then i.window else f.window } := by
  rw [run, Result.frame_andThen rfl, Result.frame_andThen (Result.frame_attempt hopen hi)]
  rfl

theorem frame_slice {stop : Predicate} {steps : List Step} {i : Frame}
    (hopen : f.isClosed = false)
    (hi : (runAll n steps (.ofQueue (f.window.slice stop))).frame = .ok i) :
    ((slice stop steps).run n f).frame = .ok { f with window := f.window.resume stop } := by
  rw [run, Result.frame_andThen (Result.frame_opened hopen _), Result.frame_andThen rfl,
    Result.frame_andThen hi]
  rfl

end Step

theorem endsOn_runAll_cons {n : Nesting} {s : Step} {steps : List Step} {f : Frame}
    {committed committed' : Option Bool} (h : (s.run n f).EndsOn f.window committed)
    (hothers : forall g : Frame, g.committed = committed ->
      (runAll n steps g).EndsOn g.window committed') :
    (runAll n (s :: steps) f).EndsOn f.window committed' := by
  obtain ⟨g, hg, hmoves, hmark⟩ := h
  obtain ⟨k, hk, hmoves', hmark'⟩ := hothers g hmark
  refine ⟨k, ?_, hmoves.trans hmoves', hmark'⟩
  rw [runAll, Result.frame_andThen hg, hk]

mutual

/-- A step that is due and orderly moves on, and only a commit changes the mark. -/
theorem Step.endsOn_run (n : Nesting) (s : Step) (f : Frame)
    (hdue : s.isDue f.committed = true) (h : s.orderly = true) :
    (s.run n f).EndsOn f.window (s.mark f.committed) := by
  match s with
  -- the inner steps run on a queue that is not committed, so that they are due from the start
  | .split steps =>
      obtain ⟨i, hi, hmoves, -⟩ := endsOn_runAll n steps (.ofSplit f.window) h
      exact ⟨_, Step.frame_split (Step.not_isClosed_of_isDue hdue rfl rfl) hi,
        hmoves.ite, rfl⟩
  | .attempt steps messages =>
      obtain ⟨i, hi, hmoves, -⟩ := endsOn_runAll n steps (.ofQueue f.window) h
      exact ⟨_, Step.frame_attempt (Step.not_isClosed_of_isDue hdue rfl rfl) hi,
        hmoves.ite, rfl⟩
  | .slice stop steps =>
      obtain ⟨i, hi, -, -⟩ := endsOn_runAll n steps (.ofQueue (f.window.slice stop)) h
      exact ⟨_, Step.frame_slice (Step.not_isClosed_of_isDue hdue rfl rfl) hi,
        f.window.movesTo_resume stop, rfl⟩
  | .poll | .peek | .peekNth i | .pollIf p | .peekIs k | .skipBlank | .state | .find p | .rest
  | .depth | .read r | .commit | .isCommitted => exact Step.endsOn_run_of_inner?_eq_none rfl hdue

theorem endsOn_runAll (n : Nesting) (steps : List Step) (f : Frame)
    (h : orderly f.committed steps = true) :
    (runAll n steps f).EndsOn f.window (steps.foldl Step.mark f.committed) := by
  match steps with
  | [] => exact ⟨f, rfl, .refl f.window, rfl⟩
  | s :: steps =>
      simp only [orderly, Bool.and_eq_true] at h
      obtain ⟨⟨hdue, hstep⟩, hothers⟩ := h
      apply endsOn_runAll_cons (Step.endsOn_run n s f hdue hstep)
      intro g hg
      rw [List.foldl_cons, <- hg]
      exact endsOn_runAll n steps g (by rw [hg]; exact hothers)

end

/-!
## Transactions
-/

def commits (steps : List Step) : Bool := steps.any Step.isCommit

theorem foldl_mark (b : Bool) (steps : List Step) :
    steps.foldl Step.mark (some b) = some (b || commits steps) := by
  induction steps generalizing b with
  | nil => rw [List.foldl_nil, commits, List.any_nil, Bool.or_false]
  | cons s steps ih =>
      rw [List.foldl_cons, commits, List.any_cons, Step.mark]
      cases hcommit : s.isCommit with
      | true =>
          rw [if_pos rfl, ih]
          simp
      | false =>
          rw [if_neg (by simp), ih]
          simp [commits]

/-- How a step leaves its queue: it moved on over the same tokens, so that an end of what
was left before is left.  A step without inner steps answers what it answers on the tokens
left, and leaves what it leaves of them.  A split and an attempt leave what their inner queue
leaves or what was there, a slice leaves what starts at its stop token, and its inner queue
holds what is in front of it. -/
structure Transacts (n : Nesting) (s : Step) (f g : Frame) : Prop where
  suffix : g.left <:+ f.left
  moves : f.window.MovesTo g.window
  plain : s.inner? f = none -> s.usesQueue = true ->
    s.run n f = .done s (s.onTokens n f.left).1 g ∧ g.left = (s.onTokens n f.left).2
  split : forall steps, s = .split steps ->
    exists i, (runAll n steps (.ofSplit f.window)).frame = .ok i ∧
      (commits steps = false -> g.left = f.left) ∧ (commits steps = true -> g.left = i.left)
  attempt : forall steps messages, s = .attempt steps messages ->
    exists i, (runAll n steps (.ofQueue f.window)).frame = .ok i ∧
      ((Outcome.withMessages () messages).errors ≠ [] -> g.left = f.left) ∧
      ((Outcome.withMessages () messages).errors = [] -> g.left = i.left)
  slice : forall stop steps, s = .slice stop steps ->
    exists exposed i, s.inner? f = some (steps, .plain exposed) ∧
      (runAll n steps (.plain exposed)).frame = .ok i ∧ f.left = exposed ++ g.left ∧
      (forall t, t ∈ exposed -> stop t = false) ∧ StandsAt stop g.left

theorem transacts_run (n : Nesting) {s : Step} {f : Frame} (hdue : s.isDue f.committed = true)
    (h : s.orderly = true) : exists g, (s.run n f).frame = .ok g ∧ Transacts n s f g := by
  obtain ⟨g, hg, hmoves, -⟩ := Step.endsOn_run n s f hdue h
  refine ⟨g, hg, hmoves.suffix, hmoves, ?_, ?_, ?_, ?_⟩
  · intro hinner huses
    have hcommit : s.isCommit = false := by
      cases s with
      | commit => cases huses
      | _ => rfl
    have hrun := Step.run_of_inner?_eq_none (n := n) hinner huses
      (Step.not_isClosed_of_isDue hdue hcommit huses)
    obtain ⟨w, hplain, hleft, -⟩ := Step.runPlain_eq n s f
    rw [hrun, hplain] at hg ⊢
    rcases Except.ok.inj hg with rfl
    exact ⟨rfl, hleft⟩
  · rintro steps rfl
    obtain ⟨i, hi, -, hmark⟩ := endsOn_runAll n steps (.ofSplit f.window) h
    -- the inner queue starts uncommitted, so a commit among its steps is all that closes it
    have hclosed : i.isClosed = commits steps := by
      rw [Frame.isClosed, hmark, Frame.ofSplit, foldl_mark]
      cases commits steps <;> rfl
    rw [Step.frame_split (Step.not_isClosed_of_isDue hdue rfl rfl) hi] at hg
    rcases Except.ok.inj hg with rfl
    refine ⟨i, hi, ?_, ?_⟩
    · intro hcommits
      exact congrArg Window.left (if_neg (by simp [hclosed, hcommits]))
    · intro hcommits
      exact congrArg Window.left (if_pos (by rw [hclosed, hcommits]))
  · rintro steps messages rfl
    obtain ⟨i, hi, -, -⟩ := endsOn_runAll n steps (.ofQueue f.window) h
    rw [Step.frame_attempt (Step.not_isClosed_of_isDue hdue rfl rfl) hi] at hg
    rcases Except.ok.inj hg with rfl
    refine ⟨i, hi, ?_, ?_⟩
    · intro herrors
      exact congrArg Window.left (if_neg fun hvalid => herrors (Outcome.isValid_iff.mp hvalid))
    · intro herrors
      exact congrArg Window.left (if_pos (Outcome.isValid_iff.mpr herrors))
  · rintro stop steps rfl
    obtain ⟨i, hi, -, -⟩ := endsOn_runAll n steps (.ofQueue (f.window.slice stop)) h
    rw [Step.frame_slice (Step.not_isClosed_of_isDue hdue rfl rfl) hi] at hg
    rcases Except.ok.inj hg with rfl
    have hslice := f.window.slice_eq stop
    have hresume : Frame.left { f with window := f.window.resume stop } = onward stop f.left :=
      f.window.left_resume stop
    rw [hslice] at hi
    rw [hresume]
    exact ⟨before stop f.left, i, by rw [Step.inner?, hslice]; rfl, hi,
      (before_append_onward stop f.left).symm, fun t ht => stop_eq_false_of_mem_before ht,
      standsAt_onward stop f.left⟩

/-- A step is taken on a queue in the course of a program: as the first step, as one behind
it, or among the inner steps of the first one. -/
inductive Taken (n : Nesting) : List Step -> Frame -> Step -> Frame -> Prop where
  | first {s : Step} {steps : List Step} {f : Frame} : Taken n (s :: steps) f s f
  | behind {s u : Step} {steps : List Step} {f g k : Frame} (hg : (s.run n f).frame = .ok g)
      (h : Taken n steps g u k) : Taken n (s :: steps) f u k
  | inside {s u : Step} {steps inner : List Step} {f start k : Frame}
      (hstart : s.inner? f = some (inner, start)) (h : Taken n inner start u k) :
      Taken n (s :: steps) f u k

theorem orderly_inner {s : Step} {f start : Frame} {inner : List Step}
    (hstart : s.inner? f = some (inner, start)) (h : s.orderly = true) :
    orderly start.committed inner = true ∧ start.left <:+: f.left := by
  cases s with
  | split steps =>
      cases hstart
      exact ⟨h, List.infix_refl f.left⟩
  | attempt steps messages =>
      cases hstart
      exact ⟨h, List.infix_refl f.left⟩
  | slice stop steps =>
      cases hstart
      rw [Window.slice_eq]
      exact ⟨h, List.IsPrefix.isInfix ⟨_, before_append_onward stop f.left⟩⟩
  | _ => cases hstart

/-- Every step that an orderly program takes is due where it is taken, and its queue holds
a part of the tokens the program started with. -/
theorem Taken.due {n : Nesting} {steps : List Step} {f k : Frame} {u : Step}
    (ht : Taken n steps f u k) (h : orderly f.committed steps = true) :
    u.isDue k.committed = true ∧ u.orderly = true ∧ k.left <:+: f.left := by
  induction ht with
  | first =>
      simp only [orderly, Bool.and_eq_true] at h
      exact ⟨h.1.1, h.1.2, List.infix_refl _⟩
  | @behind s u steps f g k hg _ ih =>
      simp only [orderly, Bool.and_eq_true] at h
      obtain ⟨⟨hdue, hstep⟩, hothers⟩ := h
      obtain ⟨g', hg', hmoves, hmark⟩ := Step.endsOn_run n s f hdue hstep
      rw [hg'] at hg
      rcases Except.ok.inj hg with rfl
      rw [<- hmark] at hothers
      obtain ⟨hdue', horderly', hpart⟩ := ih hothers
      exact ⟨hdue', horderly', hpart.trans hmoves.suffix.isInfix⟩
  | @inside s u steps inner f start k hstart _ ih =>
      simp only [orderly, Bool.and_eq_true] at h
      obtain ⟨hinner, hpart⟩ := orderly_inner hstart h.1.2
      obtain ⟨hdue', horderly', hpart'⟩ := ih hinner
      exact ⟨hdue', horderly', hpart'.trans hpart⟩

/-- An orderly program on a list of tokens runs to its end without misusing a split and
leaves an end of the list.  Every step it takes, at any depth, is taken on a part of the
list, is done, and leaves what its kind of transaction leaves. -/
theorem runAll_transacts (n : Nesting) (ts : List Token) {steps : List Step}
    (h : orderly none steps = true) :
    (exists f, (runAll n steps (.plain ts)).frame = .ok f ∧ f.left <:+ ts) ∧
      forall s f, Taken n steps (.plain ts) s f ->
        f.left <:+: ts ∧ exists g, (s.run n f).frame = .ok g ∧ Transacts n s f g := by
  constructor
  · obtain ⟨f, hf, hmoves, -⟩ := endsOn_runAll n steps (.plain ts) h
    exact ⟨f, hf, hmoves.suffix⟩
  · intro s f ht
    obtain ⟨hdue, horderly, hpart⟩ := ht.due h
    exact ⟨hpart, transacts_run n hdue horderly⟩

/-- A split with a slice in it, which holds a split that takes nothing and an attempt that
fails; and an attempt that succeeds. -/
def nestedSteps : List Step :=
  [.split
    [.poll,
      .slice (Predicate.ofKind Css.semicolon)
        [.skipBlank, .split [.poll], .attempt [.poll] ["no value"]],
      .poll, .commit, .isCommitted],
    .attempt [.poll] []]

def fourItems : List Token :=
  [.ofText Css.ident ['a'], .bare Css.whitespace, .ofText Css.ident ['b'], .bare Css.semicolon,
    .ofText Css.ident ['c'], .eof]

def secondItem : Window := ⟨[.bare Css.whitespace, .ofText Css.ident ['b']], 1, by decide⟩

theorem runAll_transacts_nested :
    orderly none nestedSteps = true ∧
      (exists f, (runAll ⟨8, 0⟩ nestedSteps (.plain fourItems)).frame = .ok f ∧
        f.left = fourItems.drop 5) ∧
      exists g, ((Step.split [.poll]).run ⟨8, 0⟩ (.ofQueue secondItem)).frame = .ok g ∧
        g.left = [.ofText Css.ident ['b']] := by
  have horderly : orderly none nestedSteps = true := by decide
  have hrun : (runAll ⟨8, 0⟩ nestedSteps (.plain fourItems)).frame =
      .ok (.ofQueue ⟨fourItems, 5, by decide⟩) := by rfl
  have hskip : (Step.skipBlank.run ⟨8, 0⟩ (.plain secondItem.tokens)).frame =
      .ok (.ofQueue secondItem) := by with_unfolding_all rfl
  obtain ⟨⟨f, hf, -⟩, htaken⟩ := runAll_transacts ⟨8, 0⟩ fourItems horderly
  refine ⟨horderly, ⟨f, hf, ?_⟩, ?_⟩
  · rw [hrun] at hf
    rcases Except.ok.inj hf with rfl
    rfl
  · obtain ⟨-, g, hg, htransacts⟩ := htaken (.split [.poll]) (.ofQueue secondItem)
      (.inside rfl (.behind rfl (.inside rfl (.behind hskip .first))))
    obtain ⟨i, -, hkept, -⟩ := htransacts.split [.poll] rfl
    exact ⟨g, hg, hkept rfl⟩

end Queue
end StyleTokens

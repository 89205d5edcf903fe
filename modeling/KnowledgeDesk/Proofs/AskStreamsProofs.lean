import KnowledgeDesk.Lib.Runs
import KnowledgeDesk.Proofs.AskWritesProofs
import KnowledgeDesk.Proofs.BillingProofs

/-!
# Runs of many ask streams

What a step of the machine can do, and from it: the log of a stream is what has happened to its
generator, and the platform's ledger adds up the bookings in the log.
-/

open Table

namespace KnowledgeDesk.Proofs

open Assistant Providers Stmt AskStreams

variable {env : Env}

/-! ## The steps -/

/-- What a step can do: nothing, open a stream, start or discard one, answer an operation of one, or
carry a signal to one. -/
theorem askStep_cases (a : AskStreams) (l : AskStreams.Label) :
    AskStreams.step env a l = a ∨
    (∃ i ctx req, l = .ask i ctx req ∧ a.streams i = none ∧ AskStreams.step env a l =
      a.setStream i ⟨ctx, { req with env }, false, start { req with env }⟩) ∨
    (∃ i s rest, a.streams i = some s ∧ s.started = false ∧
      (rest = s.rest ∨ rest = .ret (.error .generatorExit, {})) ∧
      AskStreams.step env a l = a.setStream i { s with started := true, rest }) ∨
    (∃ i now fault reference s o k, l = .perform i now fault reference ∧ a.streams i = some s ∧
      s.started = true ∧ s.rest = .perform o k ∧ AskStreams.step env a l =
        let r := reply env s.ctx a.nextId now fault reference a.db o
        { a.advance i s now (.performed o r.1) (k r.1) with db := r.2, nextId := a.nextId + drawn o r.1 }) ∨
    (∃ i now signal s f k, l = .resume i now signal ∧ a.streams i = some s ∧ s.started = true ∧
      s.rest = .emit f k ∧
      AskStreams.step env a l = a.advance i s now (.yielded f signal) (k signal)) := by
  cases l with
  | ask i ctx req =>
    cases hs : a.streams i with
    | none => exact .inr (.inl ⟨i, ctx, req, rfl, hs, by simp [AskStreams.step, hs]⟩)
    | some s => exact .inl (by simp [AskStreams.step, hs])
  | perform i now fault reference =>
    cases hs : a.streams i with
    | none => exact .inl (by simp [AskStreams.step, hs])
    | some s =>
      obtain ⟨ctx, req, started, rest⟩ := s
      cases started with
      | false => exact .inl (by simp [AskStreams.step, hs])
      | true =>
        cases rest with
        | perform o k =>
          exact .inr (.inr (.inr (.inl ⟨i, now, fault, reference, _, o, k, rfl, hs, rfl, rfl,
            by simp [AskStreams.step, hs]⟩)))
        | ret x => exact .inl (by simp [AskStreams.step, hs])
        | emit f k => exact .inl (by simp [AskStreams.step, hs])
  | resume i now signal =>
    cases hs : a.streams i with
    | none => exact .inl (by simp [AskStreams.step, hs])
    | some s =>
      obtain ⟨ctx, req, started, rest⟩ := s
      cases started with
      | false =>
        refine .inr (.inr (.inl ?_))
        cases signal with
        | next => exact ⟨i, _, rest, hs, rfl, .inl rfl, by simp [AskStreams.step, hs]⟩
        | close => exact ⟨i, _, _, hs, rfl, .inr rfl, by simp [AskStreams.step, hs]⟩
      | true =>
        cases rest with
        | emit f k =>
          exact .inr (.inr (.inr (.inr ⟨i, now, signal, _, f, k, rfl, hs, rfl, rfl,
            by simp [AskStreams.step, hs]⟩)))
        | ret x => exact .inl (by simp [AskStreams.step, hs])
        | perform o k => exact .inl (by simp [AskStreams.step, hs])

/-! ## Histories -/

@[simp] theorem history_setStream (a : AskStreams) (i j : Nat) (s : AskStream) :
    (a.setStream i s).history j = a.history j := rfl

theorem history_advance (a : AskStreams) (i j : Nat) (s : AskStream) (now : Time) (e : AskEvent)
    (rest : AskGen) :
    (a.advance i s now e rest).history j = if j = i then a.history j ++ [e] else a.history j := by
  show ((a.log ++ [(⟨i, now, e⟩ : AskEntry)]).filter fun entry => entry.stream == j).map (·.event) = _
  rw [List.filter_append, List.map_append]
  by_cases hj : j = i
  · subst hj
    simp [history]
  · have hij : ¬ i = j := fun h => hj h.symm
    simp [history, hj, hij]

/-- The streams of the machine: before a stream starts nothing happens to it, and after that its log
leads from the call to what is left of it, unless it was discarded unstarted. -/
structure Living (a : AskStreams) : Prop where
  unopened : ∀ i, a.streams i = none → a.history i = []
  unstarted : ∀ i s, a.streams i = some s → s.started = false → a.history i = [] ∧ s.rest = start s.req
  started : ∀ i s, a.streams i = some s → s.started = true →
    Gen.Reaches (start s.req) (a.history i) s.rest ∨
      (a.history i = [] ∧ s.rest = .ret (.error .generatorExit, {}))

theorem setStream_self (a : AskStreams) (i : Nat) (s : AskStream) : (a.setStream i s).streams i = some s := by
  simp [setStream]

theorem setStream_of_ne (a : AskStreams) {i j : Nat} (s : AskStream) (h : j ≠ i) :
    (a.setStream i s).streams j = a.streams j := by
  simp [setStream, h]

/-- A step changes one stream: it is enough to look at it. -/
theorem Living.update {a a' : AskStreams} (h : Living a) {i : Nat} {s : AskStream}
    (hstreams : a'.streams = (a.setStream i s).streams) (hothers : ∀ j, j ≠ i → a'.history j = a.history j)
    (hunstarted : s.started = false → a'.history i = [] ∧ s.rest = start s.req)
    (hstarted : s.started = true → Gen.Reaches (start s.req) (a'.history i) s.rest ∨
      (a'.history i = [] ∧ s.rest = .ret (.error .generatorExit, {}))) : Living a' := by
  have hself : a'.streams i = some s := by rw [hstreams, setStream_self]
  have hother : ∀ j, j ≠ i → a'.streams j = a.streams j := fun j hj => by
    rw [hstreams, setStream_of_ne a s hj]
  constructor
  · intro j hj
    by_cases hji : j = i
    · rw [hji, hself] at hj
      cases hj
    · rw [hothers j hji]
      exact h.unopened j (hother j hji ▸ hj)
  · intro j s' hj hs'
    by_cases hji : j = i
    · rw [hji, hself] at hj
      obtain rfl := Option.some.inj hj
      rw [hji]
      exact hunstarted hs'
    · rw [hothers j hji]
      exact h.unstarted j s' (hother j hji ▸ hj) hs'
  · intro j s' hj hs'
    by_cases hji : j = i
    · rw [hji, hself] at hj
      obtain rfl := Option.some.inj hj
      rw [hji]
      exact hstarted hs'
    · rw [hothers j hji]
      exact h.started j s' (hother j hji ▸ hj) hs'

/-- A started stream that has come to a node takes one event from it. -/
theorem Living.advance {a a' : AskStreams} (h : Living a) {i : Nat} {s : AskStream} (now : Time)
    {e : AskEvent} {rest : AskGen} (hs : a.streams i = some s) (hst : s.started = true)
    (hne : s.rest ≠ .ret (.error .generatorExit, {})) (hstep : Gen.Reaches s.rest [e] rest)
    (hstreams : a'.streams = (a.advance i s now e rest).streams)
    (hlog : a'.log = (a.advance i s now e rest).log) : Living a' := by
  have hhistory : ∀ j, a'.history j = if j = i then a.history j ++ [e] else a.history j := by
    intro j
    rw [← history_advance a i j s now e rest, history, hlog]
    rfl
  refine h.update hstreams (fun j hj => by rw [hhistory, if_neg hj]) (fun hf => absurd hf (by simp))
    fun _ => .inl ?_
  rw [hhistory, if_pos rfl]
  rcases h.started i s hs hst with hr | ⟨-, hret⟩
  · exact hr.trans hstep
  · exact absurd hret hne

theorem living_step {a : AskStreams} (h : Living a) (l : AskStreams.Label) :
    Living (AskStreams.step env a l) := by
  rcases @askStep_cases env a l with hid | ⟨i, ctx, req, he, hs, hstep⟩ |
    ⟨i, s, rest, hs, hst, hrest, hstep⟩ | ⟨i, now, fault, reference, s, o, k, he, hs, hst, hr, hstep⟩ |
    ⟨i, now, signal, s, f, k, he, hs, hst, hr, hstep⟩
  · rw [hid]
    exact h
  · rw [hstep]
    exact h.update rfl (fun j hj => rfl) (fun _ => ⟨h.unopened i hs, rfl⟩) fun ht => absurd ht (by simp)
  · rw [hstep]
    obtain ⟨hh, hstart⟩ := h.unstarted i s hs hst
    refine h.update rfl (fun j hj => rfl) (fun ht => absurd ht (by simp)) fun _ => ?_
    rcases hrest with rfl | rfl
    · refine .inl ?_
      show Gen.Reaches (start s.req) (a.history i) s.rest
      rw [hh, hstart]
      exact .refl _
    · exact .inr ⟨hh, rfl⟩
  · have hreach : ∀ r, Gen.Reaches s.rest [.performed o r] (k r) := by
      intro r
      rw [hr]
      exact .performed (.refl _)
    refine h.advance now hs hst (by rw [hr]; simp)
      (hreach (reply env s.ctx a.nextId now fault reference a.db o).1) ?_ ?_
    · rw [hstep]
    · rw [hstep]
  · have hreach : Gen.Reaches s.rest [.yielded f signal] (k signal) := by
      rw [hr]
      exact .yielded (.refl _)
    refine h.advance now hs hst (by rw [hr]; simp) hreach ?_ ?_
    · rw [hstep]
    · rw [hstep]

theorem living_fresh (db : Db) (nextId : Uuid) : Living (AskStreams.fresh db nextId) :=
  ⟨fun _ _ => rfl, fun i s hs => absurd hs (by simp [AskStreams.fresh]),
    fun i s hs => absurd hs (by simp [AskStreams.fresh])⟩

/-- A finished stream is billed once for what its provider said to it. -/
theorem Living.billedOnce {a : AskStreams} (h : Living a) {i : Nat} {s : AskStream}
    (hs : a.streams i = some s) (hfin : s.finished = true)
    (hone : ∀ contexts, (usages (s.req.provider.stream s.req.question contexts).events).length ≤ 1)
    (hw : WritesSucceed (a.history i)) : BilledOnce (a.history i) := by
  have hnil : a.history i = [] → BilledOnce (a.history i) := fun hh => by
    rw [hh]
    exact ⟨fun _ => rfl, fun hne => absurd rfl hne⟩
  by_cases hst : s.started = true
  · rcases h.started i s hs hst with hr | ⟨hh, -⟩
    · obtain ⟨x, hx⟩ : ∃ x, s.rest = .ret x := by
        unfold AskStream.finished at hfin
        split at hfin
        · exact ⟨_, ‹_›⟩
        · cases hfin
      rw [hx] at hr
      have hpath : Gen.Path (start s.req) (a.history i) x := hr
      obtain ⟨contexts, hheard⟩ := heard_of_path hpath
      refine settled_of_path hpath hw (le_trans ?_ (hone contexts))
      exact (hheard.sublist.filterMap _).length_le
    · exact hnil hh
  · exact hnil (h.unstarted i s hs (by simpa using hst)).1

/-! ## The ledger -/

/-- A booking that came back without an error: the day, and the cost. -/
def bookedEntry? : AskEntry → Option (Int × ℚ≥0)
  | ⟨_, now, .performed (.db (.finalizeAnswer _ usage _)) (.ok _)⟩ => some (dayOf now, usage.costUsd)
  | _ => none

/-- The costs booked on a day, by the log, in the order they were. -/
def bookedOn (day : Int) (log : List AskEntry) : List ℚ≥0 :=
  ((log.filterMap bookedEntry?).filter fun b => b.1 == day).map (·.2)

/-- What `platform_spend` has of a day. -/
def spentOn (day : Int) (spend : List PlatformSpend) : Option ℚ≥0 :=
  (spend.find? fun s => s.day == day).map (·.costUsd)

/-- The total with a cost added. The first cost of a day is its total. -/
def addCost (env : Env) (total : Option ℚ≥0) (cost : ℚ≥0) : Option ℚ≥0 :=
  some (match total with
    | none => cost
    | some total => env.addDouble total cost)

/-- The costs added up, from a total, one after the other. -/
def addUp (env : Env) (total : Option ℚ≥0) (costs : List ℚ≥0) : Option ℚ≥0 := costs.foldl (addCost env) total

theorem addUp_append (total : Option ℚ≥0) (costs costs' : List ℚ≥0) :
    addUp env total (costs ++ costs') = addUp env (addUp env total costs) costs' := List.foldl_append

theorem bookedOn_append (day : Int) (log log' : List AskEntry) :
    bookedOn day (log ++ log') = bookedOn day log ++ bookedOn day log' := by
  simp [bookedOn, List.filterMap_append, List.filter_append]

theorem bookedOn_of_none {day : Int} {x : AskEntry} (h : bookedEntry? x = none) : bookedOn day [x] = [] := by
  simp [bookedOn, h]

theorem bookedOn_of_some {day d : Int} {cost : ℚ≥0} {x : AskEntry} (h : bookedEntry? x = some (d, cost)) :
    bookedOn day [x] = if d = day then [cost] else [] := by
  by_cases hd : d = day
  · simp [bookedOn, h, hd]
  · simp [bookedOn, h, hd]

/-- A booking adds its cost to the total of its day. -/
theorem spentOn_addPlatformSpend (day d : Int) (cost : ℚ≥0) (spend : List PlatformSpend) :
    spentOn day (addPlatformSpend env d cost spend) =
      if d = day then addCost env (spentOn day spend) cost else spentOn day spend := by
  unfold addPlatformSpend
  split
  · rename_i hany
    rw [spentOn, spentOn, updateWhere, List.find?_map]
    have hdays : ((fun s : PlatformSpend => s.day == day) ∘
        fun s => if (s.day == d) = true then { s with costUsd := env.addDouble s.costUsd cost } else s) =
        fun s => s.day == day := by
      funext s
      rw [Function.comp_apply]
      split <;> rfl
    rw [hdays]
    cases hfind : spend.find? fun s => s.day == day with
    | none =>
      have hd : ¬ d = day := by
        rintro rfl
        obtain ⟨s, hs, hday⟩ := List.any_eq_true.1 hany
        exact List.find?_eq_none.1 hfind s hs hday
      rw [if_neg hd]
      rfl
    | some s =>
      have hday : s.day = day := by simpa using List.find?_some hfind
      by_cases hd : d = day
      · rw [if_pos hd]
        simp [addCost, hday, hd]
      · have hne : ¬ day = d := fun h => hd h.symm
        rw [if_neg hd]
        simp [hday, hne]
  · rename_i hnone
    rw [spentOn, spentOn, List.find?_append]
    by_cases hd : d = day
    · have hfind : (spend.find? fun s => s.day == day) = none := by
        refine List.find?_eq_none.2 fun s hs hday => hnone ?_
        exact List.any_eq_true.2 ⟨s, hs, hd ▸ hday⟩
      simp [hfind, addCost, hd]
    · cases hfind : spend.find? fun s => s.day == day with
      | none => simp [hd]
      | some s => simp [hd]

/-- An operation changes the platform's ledger by what it books. -/
theorem reply_platformSpend (ctx : AuthContext) (fresh : Uuid) (now : Time) (fault : Option Err)
    (reference : String) (db : Db) (i : Nat) (o : AskOp) :
    (reply env ctx fresh now fault reference db o).2.platformSpend =
      match bookedEntry? ⟨i, now, .performed o (reply env ctx fresh now fault reference db o).1⟩ with
      | some (day, cost) => addPlatformSpend env day cost db.platformSpend
      | none => db.platformSpend := by
  rcases @reply_db env ctx fresh now fault reference db o with ⟨h, hquiet⟩ | ⟨action, detail, entries, rfl, h⟩ |
    ⟨question, provider, refused, a, rfl, -, -, -, -, -, -, h⟩ | ⟨answerId, rfl, -, h⟩ |
    ⟨answerId, usage, estimated, rfl, rfl, h⟩
  · have hnone : bookedEntry? ⟨i, now, .performed o (reply env ctx fresh now fault reference db o).1⟩ = none := by
      cases o with
      | db call =>
        cases call with
        | finalizeAnswer answerId usage estimated =>
          cases fault with
          | none => exact absurd rfl (hquiet answerId usage estimated rfl)
          | some e => rfl
        | _ => rfl
      | _ => rfl
    rw [hnone, h]
  · rw [h]
    rfl
  · rw [h]
    rfl
  · rw [h]
    rfl
  · rw [h]
    rfl

/-- The ledger has of each day what it had at first, with the costs added that the log has as booked. -/
def Ledger (env : Env) (spend : List PlatformSpend) (a : AskStreams) : Prop :=
  ∀ day, spentOn day a.db.platformSpend = addUp env (spentOn day spend) (bookedOn day a.log)

theorem ledger_step {spend : List PlatformSpend} {a : AskStreams} (h : Ledger env spend a)
    (l : AskStreams.Label) : Ledger env spend (AskStreams.step env a l) := by
  intro day
  rcases @askStep_cases env a l with hid | ⟨i, ctx, req, he, hs, hstep⟩ |
    ⟨i, s, rest, hs, hst, hrest, hstep⟩ | ⟨i, now, fault, reference, s, o, k, he, hs, hst, hr, hstep⟩ |
    ⟨i, now, signal, s, f, k, he, hs, hst, hr, hstep⟩
  · rw [hid]
    exact h day
  · rw [hstep]
    exact h day
  · rw [hstep]
    exact h day
  · have hspend := @reply_platformSpend env s.ctx a.nextId now fault reference a.db i o
    have hlog : (AskStreams.step env a l).log = a.log ++
        [(⟨i, now, .performed o (reply env s.ctx a.nextId now fault reference a.db o).1⟩ : AskEntry)] := by
      rw [hstep]
      rfl
    have hdb : (AskStreams.step env a l).db = (reply env s.ctx a.nextId now fault reference a.db o).2 := by
      rw [hstep]
    rw [← hdb] at hspend
    rw [hlog, bookedOn_append, addUp_append, ← h day]
    cases hb : bookedEntry? ⟨i, now, .performed o (reply env s.ctx a.nextId now fault reference a.db o).1⟩ with
    | none =>
      rw [hb] at hspend
      rw [hspend, bookedOn_of_none hb]
      rfl
    | some b =>
      obtain ⟨d, cost⟩ := b
      rw [hb] at hspend
      rw [hspend, bookedOn_of_some hb, spentOn_addPlatformSpend]
      split <;> rfl
  · rw [hstep]
    show spentOn day a.db.platformSpend =
      addUp env (spentOn day spend) (bookedOn day (a.log ++ [(⟨i, now, .yielded f signal⟩ : AskEntry)]))
    rw [bookedOn_append, bookedOn_of_none (x := ⟨i, now, .yielded f signal⟩) rfl, List.append_nil]
    exact h day

/-- In every run of any streams: once a stream is over, and if none of its database writes raised, its
answer has been finalized exactly once if an event of the provider reached it and not at all otherwise,
and flagged as estimated exactly when no usage reached it; and what the platform's ledger has of a day is
the sum of the costs booked on it, added up in the order in which they were booked. -/
theorem answers_billed_once (env : Env) (db : Db) (nextId : Uuid) (ls : List AskStreams.Label) :
    let a := Runs.run (AskStreams.step env) (AskStreams.fresh db nextId) ls
    (∀ i s, a.streams i = some s → s.finished = true →
      (∀ contexts, (usages (s.req.provider.stream s.req.question contexts).events).length ≤ 1) →
      WritesSucceed (a.history i) → BilledOnce (a.history i)) ∧
    ∀ day, spentOn day a.db.platformSpend = addUp env (spentOn day db.platformSpend) (bookedOn day a.log) := by
  intro a
  have hliving : Living a := Runs.run_inv (P := Living) (fun a l h => living_step h l) (living_fresh db nextId) ls
  have hledger : Ledger env db.platformSpend a :=
    Runs.run_inv (P := Ledger env db.platformSpend) (fun a l h => ledger_step h l) (fun _ => rfl) ls
  exact ⟨fun i s hs hfin hone hw => hliving.billedOnce hs hfin hone hw, hledger⟩

/-- A provider that streams a word and is not heard of again. -/
def quietProvider : AnswerProvider where
  name := "mock"
  stream _ _ := ⟨[.token "It "], none⟩
  estimate _ _ _ := ⟨8, 1, 1⟩

/-- A question that one passage answers. -/
def refundQuestion : Request where
  env := asciiEnv id
  tracing := false
  embedQuery := fun _ => .ok []
  provider := quietProvider
  question := "refunds?"
  k := 1

/-- A desk with a member and an ingested document. -/
def deskDb : Db where
  orgs := [⟨0, "acme", "Acme"⟩]
  users := [⟨1, "a@acme.com", "h"⟩]
  memberships := [⟨1, 0, .member, 0⟩]
  documents := [⟨2, 0, "upload", "refunds.md", "Five days.", "Five days.", ["public-to-org"], [], .ingested, 1, 0⟩]
  chunks := [⟨0, 2, 0, "Five days.", [], ["public-to-org"]⟩]

/-- The member asks, takes the first word and leaves. -/
def walkAway : List AskStreams.Label :=
  [.ask 0 ⟨1, 0, .member, "a@acme.com"⟩ refundQuestion, .resume 0 0 .next, .perform 0 0 none "", .perform 0 0 none "",
    .perform 0 0 none "", .perform 0 0 none "", .perform 0 0 none "", .perform 0 0 none "",
    .resume 0 0 .next, .resume 0 0 .next, .perform 0 0 none "", .resume 0 0 .close, .perform 0 0 none ""]

/-- The run of that member: the stream is over, and an estimate is booked for it. -/
theorem answers_billed_once_after_a_word :
    let a := Runs.run (AskStreams.step (asciiEnv id)) (AskStreams.fresh deskDb 10) walkAway
    BilledOnce (a.history 0) ∧ (received (a.history 0)).length = 1 ∧
      spentOn 0 a.db.platformSpend = addUp (asciiEnv id) none [1] := by
  intro a
  have h := answers_billed_once (asciiEnv id) deskDb 10 walkAway
  obtain ⟨s, hs⟩ := Option.isSome_iff_exists.1 (by decide : (a.streams 0).isSome = true)
  have hfin : s.finished = true := by
    have h0 : (a.streams 0).map (·.finished) = some true := by decide
    rw [hs] at h0
    exact Option.some.inj h0
  have hprovider : s.req.provider = quietProvider := by
    have h0 : (a.streams 0).map (·.req.provider) = some quietProvider := rfl
    rw [hs] at h0
    exact Option.some.inj h0
  have hwrites : WritesSucceed (a.history 0) := by
    unfold WritesSucceed
    decide
  have hbooked : bookedOn 0 a.log = [1] := by decide
  refine ⟨h.1 0 s hs hfin (fun contexts => ?_) hwrites, by decide, hbooked ▸ h.2 0⟩
  rw [hprovider]
  exact Nat.zero_le 1

end KnowledgeDesk.Proofs

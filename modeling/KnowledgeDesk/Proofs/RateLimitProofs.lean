import KnowledgeDesk.Lib.Runs
import KnowledgeDesk.Lib.TokenBucket
import KnowledgeDesk.RateLimit

/-!
# The rate limiter is a token bucket for each key

A call finds the level of its key's bucket. What the sweep drops has not been used for an hour: it can be
told from a bucket never seen only if an hour does not fill it.
-/

open TokenBucket

namespace KnowledgeDesk.Proofs

/-- A call of `check`: its key and the clock's reading. -/
structure Call where
  key : String
  now : ℚ
  deriving DecidableEq

/-- A limiter, as the outcome of a call and the buckets after it. -/
abbrev Limiter := Call → Buckets → (Bool × ℚ) × Buckets

/-- The calls with their outcomes. -/
def serve (limiter : Limiter) : Buckets → List Call → List (Call × (Bool × ℚ))
  | _, [] => []
  | buckets, c :: cs => (c, (limiter c buckets).1) :: serve limiter (limiter c buckets).2 cs

/-- The buckets after the calls. -/
def served (limiter : Limiter) (buckets : Buckets) (calls : List Call) : Buckets :=
  Runs.run (fun b c => (limiter c b).2) buckets calls

/-- Calls at clock readings that do not decrease. -/
def Clocked (calls : List Call) : Prop := calls.Pairwise fun c d => c.now ≤ d.now

/-- `check` under a fixed tuning. -/
def checking (settings : RateSettings) (burst perMin : Int) : Limiter := fun c buckets =>
  check settings c.key (some burst) (some perMin) c.now buckets

/-- A limiter with another sweep. -/
def sweeping (sweep : ℚ → Buckets → Buckets) (burst perMin : Int) : Limiter := fun c buckets =>
  consume burst (perMin / 60) c.key c.now (sweep c.now buckets)

/-- A limiter that never evicts. -/
def neverEvicting (burst perMin : Int) : Limiter := sweeping (fun _ buckets => buckets) burst perMin

theorem checking_eq (settings : RateSettings) (burst perMin : Int) :
    checking settings burst perMin = sweeping evictIfMany burst perMin := rfl

theorem serve_append (limiter : Limiter) (buckets : Buckets) (cs ds : List Call) :
    serve limiter buckets (cs ++ ds) =
      serve limiter buckets cs ++ serve limiter (served limiter buckets cs) ds := by
  induction cs generalizing buckets with
  | nil => rfl
  | cons c cs ih => simp only [List.cons_append, serve, ih, served, Runs.run_cons]

theorem length_serve (limiter : Limiter) (buckets : Buckets) (cs : List Call) :
    (serve limiter buckets cs).length = cs.length := by
  induction cs generalizing buckets with
  | nil => rfl
  | cons c cs ih => simp only [serve, List.length_cons, ih]

/-! ## One call -/

section Call

variable {burst perMin : Int} {rate now : ℚ} {buckets : Buckets} {key : String}

/-- The bucket of a key. -/
def bucket? (buckets : Buckets) (key : String) : Option (Bucket ℚ) :=
  (buckets.get? key).map fun b => ⟨b.1, b.2⟩

/-- The outcome of a call that finds a level. -/
def outcome (rate l : ℚ) : Bool × ℚ :=
  if 1 ≤ l then (true, 0) else (false, if 0 < rate then (1 - l) / rate else 60)

theorem consume_eq (burst : Int) (rate : ℚ) (key : String) (now : ℚ) (buckets : Buckets) :
    consume burst rate key now buckets =
      (outcome rate (level (burst : ℚ) rate (bucket? buckets key) now),
        buckets.set key ((take (burst : ℚ) rate now (bucket? buckets key)).tokens, now)) := by
  have hlevel : min (burst : ℚ) (((buckets.get? key).getD (↑burst, now)).1 +
      (now - ((buckets.get? key).getD (↑burst, now)).2) * rate) =
        level (burst : ℚ) rate (bucket? buckets key) now := by
    cases h : buckets.get? key with
    | none => simp [bucket?, h, level]
    | some b => simp [bucket?, h, level]
  unfold consume outcome
  simp only [hlevel, take]
  by_cases hallowed : 1 ≤ level (burst : ℚ) rate (bucket? buckets key) now
  · simp only [if_pos hallowed]
  · simp only [if_neg hallowed]

theorem bucket?_consume_self :
    bucket? (consume burst rate key now buckets).2 key =
      some (take (burst : ℚ) rate now (bucket? buckets key)) := by
  rw [consume_eq, bucket?, Dict.get?_set_self]
  rfl

theorem bucket?_consume_of_ne {k : String} (h : k ≠ key) :
    bucket? (consume burst rate key now buckets).2 k = bucket? buckets k := by
  rw [consume_eq, bucket?, Dict.get?_set_of_ne _ _ h]
  rfl

/-- The sweep keeps a bucket, or drops it after an hour. -/
theorem bucket?_evictIfMany (now : ℚ) (buckets : Buckets) (key : String) :
    bucket? (evictIfMany now buckets) key = bucket? buckets key ∨
      (bucket? (evictIfMany now buckets) key = none ∧
        ∃ b, bucket? buckets key = some b ∧ b.last < now - 3600) := by
  unfold evictIfMany
  by_cases hmany : 1000 < buckets.size
  · rw [if_pos hmany, bucket?, evictIdle, Dict.get?_keep, bucket?]
    cases hb : buckets.get? key with
    | none => exact .inl rfl
    | some b =>
      by_cases hidle : b.2 < now - EVICT_AFTER_SECONDS
      · refine .inr ⟨?_, ⟨b.1, b.2⟩, rfl, hidle⟩
        rw [Option.filter_some, decide_eq_true hidle]
        rfl
      · refine .inl ?_
        rw [Option.filter_some, decide_eq_false hidle]
        rfl
  · rw [if_neg hmany]
    exact .inl rfl

end Call

/-! ## Without eviction the keys are independent -/

section Keys

variable {burst perMin : Int} {buckets : Buckets}

/-- The entries of a key in a history. -/
def ofKey (key : String) (history : List (Call × (Bool × ℚ))) : List (Call × (Bool × ℚ)) :=
  history.filter fun e => e.1.key == key

/-- The calls of a key find the levels of its bucket, whatever the other keys do. -/
theorem ofKey_serve_neverEvicting (key : String) (cs : List Call) :
    ofKey key (serve (neverEvicting burst perMin) buckets cs) =
      (cs.filter fun c => c.key == key).zip
        ((levels (burst : ℚ) (perMin / 60) (bucket? buckets key)
          ((cs.filter fun c => c.key == key).map Call.now)).map (outcome (perMin / 60))) := by
  induction cs generalizing buckets with
  | nil => rfl
  | cons c cs ih =>
    rw [serve, ofKey, List.filter_cons, List.filter_cons, ← ofKey, ih]
    by_cases hkey : c.key = key
    · subst hkey
      simp only [beq_self_eq_true, if_true, List.map_cons, levels, List.zip_cons_cons]
      rw [neverEvicting, sweeping, bucket?_consume_self, consume_eq]
    · simp only [beq_eq_false_iff_ne.2 hkey, Bool.false_eq_true, if_false]
      rw [neverEvicting, sweeping, bucket?_consume_of_ne (Ne.symm hkey)]

end Keys

/-! ## A sweep that cannot be told -/

section Eviction

variable {burst perMin : Int} {sweep : ℚ → Buckets → Buckets} {buckets buckets' : Buckets}

/-- From a time on, a call finds the same level in both. -/
def LevelsAgree (burst perMin : Int) (clock : ℚ) (buckets buckets' : Buckets) : Prop :=
  ∀ key u, clock ≤ u → level (burst : ℚ) (perMin / 60) (bucket? buckets key) u =
    level (burst : ℚ) (perMin / 60) (bucket? buckets' key) u

/-- Calls on buckets alike have one outcome and leave buckets alike. -/
theorem LevelsAgree.call {clock : ℚ} (h : LevelsAgree burst perMin clock buckets buckets') {c : Call}
    (hc : clock ≤ c.now) :
    (consume burst (perMin / 60) c.key c.now buckets).1 =
        (consume burst (perMin / 60) c.key c.now buckets').1 ∧
      LevelsAgree burst perMin c.now (consume burst (perMin / 60) c.key c.now buckets).2
        (consume burst (perMin / 60) c.key c.now buckets').2 := by
  have hlevel := h c.key c.now hc
  constructor
  · rw [consume_eq, consume_eq, hlevel]
  · intro key u hu
    by_cases hkey : key = c.key
    · subst hkey
      rw [bucket?_consume_self, bucket?_consume_self, take, take, hlevel]
    · rw [bucket?_consume_of_ne hkey, bucket?_consume_of_ne hkey]
      exact h key u (hc.trans hu)

theorem LevelsAgree.trans {clock : ℚ} {buckets'' : Buckets}
    (h : LevelsAgree burst perMin clock buckets buckets')
    (h' : LevelsAgree burst perMin clock buckets' buckets'') :
    LevelsAgree burst perMin clock buckets buckets'' :=
  fun key u hu => (h key u hu).trans (h' key u hu)

theorem LevelsAgree.mono {clock clock' : ℚ} (h : LevelsAgree burst perMin clock buckets buckets')
    (hclock : clock ≤ clock') : LevelsAgree burst perMin clock' buckets buckets' :=
  fun key u hu => h key u (hclock.trans hu)

/-- No bucket holds less than an unused one and nothing, and none has been used after the time. -/
def Sound (burst : Int) (clock : ℚ) (buckets : Buckets) : Prop :=
  ∀ key b, bucket? buckets key = some b → min 0 (burst : ℚ) ≤ b.tokens ∧ b.last ≤ clock

theorem sound_empty (burst : Int) (clock : ℚ) : Sound burst clock Dict.empty := by
  intro key b h
  cases h

theorem refill_nonneg (hrate : 0 ≤ perMin) : (0 : ℚ) ≤ perMin / 60 :=
  div_nonneg (by exact_mod_cast hrate) (by norm_num)

theorem Sound.evict {clock : ℚ} (h : Sound burst clock buckets) (now : ℚ) :
    Sound burst clock (evictIfMany now buckets) := by
  intro key b hb
  rcases bucket?_evictIfMany now buckets key with hsame | ⟨hgone, -⟩
  · exact h key b (hsame ▸ hb)
  · rw [hgone] at hb
    cases hb

theorem Sound.le_level {clock u : ℚ} (h : Sound burst clock buckets) (hrate : 0 ≤ perMin)
    (key : String) (hu : clock ≤ u) :
    min 0 (burst : ℚ) ≤ level (burst : ℚ) (perMin / 60) (bucket? buckets key) u := by
  cases hb : bucket? buckets key with
  | none => exact min_le_right 0 (burst : ℚ)
  | some b =>
    obtain ⟨htokens, hlast⟩ := h key b hb
    have hflow : 0 ≤ (u - b.last) * (perMin / 60) := mul_nonneg (by linarith) (refill_nonneg hrate)
    exact le_min (min_le_right 0 (burst : ℚ)) (by linarith)

theorem Sound.call {clock : ℚ} (h : Sound burst clock buckets) (hrate : 0 ≤ perMin) {c : Call}
    (hc : clock ≤ c.now) : Sound burst c.now (consume burst (perMin / 60) c.key c.now buckets).2 := by
  intro key b hb
  by_cases hkey : key = c.key
  · subst hkey
    rw [bucket?_consume_self] at hb
    obtain rfl := Option.some.inj hb
    refine ⟨?_, le_refl _⟩
    unfold take
    by_cases hallowed : 1 ≤ level (burst : ℚ) (perMin / 60) (bucket? buckets c.key) c.now
    · simp only [if_pos hallowed]
      exact (min_le_left 0 (burst : ℚ)).trans (by linarith)
    · simp only [if_neg hallowed]
      exact h.le_level hrate c.key hc
  · rw [bucket?_consume_of_ne hkey] at hb
    obtain ⟨htokens, hlast⟩ := h key b hb
    exact ⟨htokens, hlast.trans hc⟩

/-- An hour fills a bucket, so what the sweep drops cannot be told from a bucket never seen. -/
theorem Sound.agree_evict {clock : ℚ} (h : Sound burst clock buckets) (hrate : 0 ≤ perMin)
    (hfills : burst ≤ 0 ∨ burst ≤ 60 * perMin) (now : ℚ) :
    LevelsAgree burst perMin now (evictIfMany now buckets) buckets := by
  intro key u hu
  rcases bucket?_evictIfMany now buckets key with hsame | ⟨hgone, b, hb, hidle⟩
  · rw [hsame]
  · rw [hgone, hb]
    have htokens := (h key b hb).1
    have hflow : 3600 * ((perMin : ℚ) / 60) ≤ (u - b.last) * (perMin / 60) :=
      mul_le_mul_of_nonneg_right (by linarith) (refill_nonneg hrate)
    have hfull : (burst : ℚ) ≤ b.tokens + (u - b.last) * (perMin / 60) := by
      rcases hfills with hnone | hhour
      · have hcap : (burst : ℚ) ≤ 0 := by exact_mod_cast hnone
        rw [min_eq_right hcap] at htokens
        linarith [refill_nonneg hrate]
      · have hcap : (burst : ℚ) ≤ 60 * perMin := by exact_mod_cast hhour
        rcases le_total (0 : ℚ) burst with hpos | hneg
        · rw [min_eq_left hpos] at htokens
          linarith
        · rw [min_eq_right hneg] at htokens
          linarith [refill_nonneg hrate]
    show (burst : ℚ) = min (burst : ℚ) (b.tokens + (u - b.last) * (perMin / 60))
    exact (min_eq_left hfull).symm

/-- Where an hour fills a bucket, no call can tell the limiter from one that never evicts. -/
theorem serve_agree (hrate : 0 ≤ perMin) (hfills : burst ≤ 0 ∨ burst ≤ 60 * perMin) {cs : List Call}
    (hcs : Clocked cs) {clock : ℚ} (hclock : ∀ c ∈ cs, clock ≤ c.now) (hsound : Sound burst clock buckets)
    (hagree : LevelsAgree burst perMin clock buckets buckets') :
    serve (sweeping evictIfMany burst perMin) buckets cs =
      serve (neverEvicting burst perMin) buckets' cs := by
  induction hcs generalizing buckets buckets' clock with
  | nil => rfl
  | @cons c cs hc _ ih =>
    have hnow := hclock c List.mem_cons_self
    have hswept := (hsound.agree_evict hrate hfills c.now).trans (hagree.mono hnow)
    obtain ⟨hout, hafter⟩ := hswept.call (le_refl c.now)
    have hsound' := (hsound.evict c.now).call hrate hnow
    rw [serve, serve, neverEvicting]
    simp only [sweeping]
    rw [hout]
    exact congrArg _ (ih hc hsound' hafter)

/-- A limiter that lets nothing through and refills nothing says so to every call. -/
theorem serve_of_drained (hburst : burst ≤ 0) (hrate : perMin ≤ 0) (cs : List Call) :
    serve (sweeping sweep burst perMin) buckets cs = cs.map fun c => (c, (false, 60)) := by
  have hcap : (burst : ℚ) ≤ 0 := by exact_mod_cast hburst
  have hflow : ¬ (0 : ℚ) < perMin / 60 :=
    not_lt.2 (div_nonpos_of_nonpos_of_nonneg (by exact_mod_cast hrate) (by norm_num))
  induction cs generalizing buckets with
  | nil => rfl
  | cons c cs ih =>
    have hlevel := @level_le_cap ℚ _ _ (burst : ℚ) (perMin / 60) c.now (bucket? (sweep c.now buckets) c.key)
    rw [serve, ih, List.map_cons, sweeping, consume_eq]
    unfold outcome
    rw [if_neg (by linarith), if_neg hflow]

/-- Where an hour fills a bucket, or none holds anything, eviction cannot be observed. -/
theorem serve_checking (settings : RateSettings) (hfills : burst ≤ 0 ∨ burst ≤ 60 * perMin)
    {cs : List Call} (hcs : Clocked cs) :
    serve (checking settings burst perMin) Dict.empty cs =
      serve (neverEvicting burst perMin) Dict.empty cs := by
  rw [checking_eq]
  rcases le_or_gt 0 perMin with hrate | hrate
  · cases cs with
    | nil => rfl
    | cons c cs =>
      refine serve_agree hrate hfills hcs (fun d hd => ?_) (sound_empty burst c.now) fun _ _ _ => rfl
      rcases List.mem_cons.1 hd with rfl | hd
      · exact le_refl _
      · exact (List.pairwise_cons.1 hcs).1 d hd
  · have hburst : burst ≤ 0 := by omega
    rw [serve_of_drained hburst (le_of_lt hrate), neverEvicting, serve_of_drained hburst (le_of_lt hrate)]

end Eviction

/-! ## What a key is allowed in an interval -/

/-- The calls of a key from `s` to `t` that were allowed. -/
def allowedBetween (key : String) (s t : ℚ) (history : List (Call × (Bool × ℚ))) : ℕ :=
  (ofKey key history).countP fun e => decide (s ≤ e.1.now ∧ e.1.now ≤ t) && e.2.1

theorem outcome_allowed (rate l : ℚ) : (outcome rate l).1 = decide (1 ≤ l) := by
  unfold outcome
  by_cases h : 1 ≤ l
  · rw [if_pos h, decide_eq_true h]
  · rw [if_neg h, decide_eq_false h]

theorem allowedBetween_neverEvicting {burst perMin : Int} {buckets : Buckets} (key : String) (s t : ℚ)
    (cs : List Call) :
    allowedBetween key s t (serve (neverEvicting burst perMin) buckets cs) =
      allowedIn (burst : ℚ) (perMin / 60) s t (bucket? buckets key)
        ((cs.filter fun c => c.key == key).map Call.now) := by
  rw [allowedBetween, ofKey_serve_neverEvicting, allowedIn, List.zip_map_right, List.zip_map_left,
    List.countP_map, List.countP_map]
  refine List.countP_congr fun e _ => ?_
  simp only [Function.comp, Prod.map_fst, Prod.map_snd, id_eq, outcome_allowed, Bool.and_eq_true,
    decide_eq_true_eq, and_assoc]

/-- In any interval a key is allowed at most a burst and what its bucket is refilled by. -/
theorem allowed_calls_bounded (settings : RateSettings) {burst perMin : Int} (hburst : 1 ≤ burst)
    (hrate : 0 ≤ perMin) (hfills : burst ≤ 60 * perMin) {calls : List Call} (hcalls : Clocked calls)
    (key : String) {s t : ℚ} (hst : s ≤ t) :
    (allowedBetween key s t (serve (checking settings burst perMin) Dict.empty calls) : ℚ) ≤
      burst + perMin * (t - s) / 60 := by
  have hcap : (0 : ℚ) ≤ burst := by exact_mod_cast (by omega : 0 ≤ burst)
  have hsorted : ((calls.filter fun c => c.key == key).map Call.now).Pairwise (· ≤ ·) :=
    List.pairwise_map.2 (hcalls.filter _)
  rw [serve_checking settings (.inr hfills) hcalls, allowedBetween_neverEvicting]
  have hbound := allowedIn_le_cap (refill_nonneg hrate) hcap hst hsorted
  calc _ ≤ (burst : ℚ) + perMin / 60 * (t - s) := hbound
    _ = burst + perMin * (t - s) / 60 := by ring

/-- A burst of one and a token a second: of three calls in a second two are allowed, and no more can be. -/
theorem two_calls_in_a_second :
    allowedBetween "a" 0 1 (serve (checking {} 1 60) Dict.empty [⟨"a", 0⟩, ⟨"a", 1 / 2⟩, ⟨"a", 1⟩]) = 2 ∧
      (allowedBetween "a" 0 1 (serve (checking {} 1 60) Dict.empty [⟨"a", 0⟩, ⟨"a", 1 / 2⟩, ⟨"a", 1⟩]) : ℚ) ≤
        (1 : Int) + (60 : Int) * (1 - 0) / 60 :=
  ⟨by decide +kernel,
    allowed_calls_bounded {} (by decide) (by decide) (by decide) (by unfold Clocked; decide +kernel) "a"
      (by norm_num)⟩

end KnowledgeDesk.Proofs

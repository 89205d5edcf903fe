import KnowledgeDesk.Proofs.AnchorsProofs

/-!
# Proofs: runs over the docs

What a run which only fixes makes of every doc, and what the runs after it find. All that is asked of the
links holds iff every link whose range was left names its module and does not end at line 0.
-/

namespace KnowledgeDesk.Proofs

open Regex Anchors

/-! ## A doc -/

/-- The links of a text after a run which only fixes. -/
def repairedPieces (package : Dict String Source) (ps : List (List Char × Link)) : List (List Char × Link) :=
  ps.map fun p => (p.1, p.2.repaired package)

section Docs

variable {package : Dict String Source} {rel : String} {ps : List (List Char × Link)} {tail : List Char}

theorem rewritten_repaired : Rewritten Retargeted ps (repairedPieces package ps) := by
  refine List.forall₂_map_right_iff.2 (List.forall₂_same.2 fun p _ => ?_)
  exact ⟨rfl, repaired_retargeted⟩

theorem cuts_repaired (h : Cuts Link.text ps tail) : Cuts Link.text (repairedPieces package ps) tail :=
  h.rewrite rewritten_repaired fun _ _ _ _ _ hv hab hrest => begins_of_retargeted hv hab hrest

theorem hits_joined (h : Cuts Link.text ps tail) :
    hits LINK (joined Link.text ps tail) = ps.map (hitOf Link.text Link.groups) := by
  rw [hits, exact_link.cut_joined h]

theorem around_joined (h : Cuts Link.text ps tail) :
    around LINK (joined Link.text ps tail) = ps.map Prod.fst ++ [tail] := by
  rw [around, hits_joined h, exact_link.cut_joined h, List.map_map]
  rfl

/-- What a run that only fixes makes of a text. -/
theorem subWith_fix {text new : List Char} {noted : List Problem}
    (h : subWith LINK (repair fixOnly package rel) text = .ok (new, noted)) :
    ∃ ps tail, text = joined Link.text ps tail ∧ Cuts Link.text ps tail ∧ (∀ p ∈ ps, p.2.Short) ∧
      new = joined Link.text (repairedPieces package ps) tail := by
  obtain ⟨ps, tail, rfl, hcuts⟩ := exists_cuts exact_link.ne_nil (s := text) rfl
  rw [subWith, exact_link.cut_joined hcuts] at h
  have hshort : ∀ p ∈ ps, p.2.Short := by
    intro p hp
    obtain ⟨x, hx⟩ := replaceHits_returns h _ (List.mem_map_of_mem hp)
    rw [repair] at hx
    cases hread : readAnchor (hitOf Link.text Link.groups p) with
    | error e =>
      rw [hread] at hx
      cases hx
    | ok a => exact short_of_readAnchor hread
  have hfix : ∀ p ∈ ps, ∃ noted, repair fixOnly package rel (hitOf Link.text Link.groups p) =
      .ok ((p.2.repaired package).text, noted) ∧ ∀ n ∈ noted, (fun _ => True) n := fun p hp => by
    obtain ⟨noted, hp'⟩ := @repair_fix package rel p.1 p.2 (hshort p hp)
    exact ⟨noted, hp', fun _ _ => trivial⟩
  obtain ⟨noted', hjoined, -⟩ := @replaceHits_joined _ _ _ _ _ _ tail _ _ _ hfix
  rw [hjoined, Except.ok.injEq, Prod.mk.injEq] at h
  exact ⟨ps, tail, rfl, hcuts, hshort, h.1.symm⟩

/-- A text whose links are settled stays as it is; a check notes only what is expected. -/
theorem subWith_settled (hcuts : Cuts Link.text ps tail)
    (h : ∀ p ∈ ps, p.2.Short ∧ p.2.Settled package) :
    (∃ noted, subWith LINK (repair fixOnly package rel) (joined Link.text ps tail) =
      .ok (joined Link.text ps tail, noted)) ∧
    ∃ noted, subWith LINK (repair checkOnly package rel) (joined Link.text ps tail) =
      .ok (joined Link.text ps tail, noted) ∧ ∀ p ∈ noted, Expected p := by
  have hsame : (ps.map fun p => (p.1, id p.2)) = ps := List.map_id ps
  have hfix : ∀ p ∈ ps, ∃ noted, repair fixOnly package rel (hitOf Link.text Link.groups p) =
      .ok ((id p.2).text, noted) ∧ ∀ n ∈ noted, (fun _ => True) n := fun p hp => by
    obtain ⟨noted, hp'⟩ := @repair_fix package rel p.1 p.2 (h p hp).1
    rw [repaired_of_settled (h p hp).2] at hp'
    exact ⟨noted, hp', fun _ _ => trivial⟩
  have hcheck : ∀ p ∈ ps, ∃ noted, repair checkOnly package rel (hitOf Link.text Link.groups p) =
      .ok ((id p.2).text, noted) ∧ ∀ n ∈ noted, Expected n := fun p hp =>
    repair_check (h p hp).1 (h p hp).2
  rw [subWith, subWith, exact_link.cut_joined hcuts]
  obtain ⟨noted, hjoined, -⟩ := @replaceHits_joined _ _ _ _ _ _ tail _ _ _ hfix
  obtain ⟨noted', hjoined', hexpected⟩ := @replaceHits_joined _ _ _ _ _ _ tail _ _ _ hcheck
  rw [hsame] at hjoined hjoined'
  exact ⟨⟨noted, hjoined⟩, noted', hjoined', hexpected⟩

/-! ## The docs -/

/-- `d'` is `d` with its links repaired. -/
def DocRepaired (package : Dict String Source) (d d' : Doc) : Prop :=
  d'.rel = d.rel ∧ ∃ ps tail, d.text = joined Link.text ps tail ∧ Cuts Link.text ps tail ∧
    (∀ p ∈ ps, p.2.Short) ∧ d'.text = joined Link.text (repairedPieces package ps) tail

theorem docs_repaired {docs docs' : List Doc} {problems : List Problem}
    (h : repairDocs fixOnly package docs = (docs', .ok problems)) : List.Forall₂ (DocRepaired package) docs docs' := by
  induction docs generalizing docs' problems with
  | nil =>
    rw [repairDocs, Prod.mk.injEq] at h
    rw [← h.1]
    exact List.Forall₂.nil
  | cons d ds ih =>
    rw [repairDocs] at h
    cases hd : subWith LINK (repair fixOnly package d.rel) d.text with
    | error e =>
      rw [hd] at h
      cases (Prod.mk.inj h).2
    | ok result =>
      obtain ⟨new, noted⟩ := result
      rw [hd, Prod.mk.injEq] at h
      obtain ⟨hdocs, hproblems⟩ := h
      cases hrest : (repairDocs fixOnly package ds).2 with
      | error e =>
        rw [hrest] at hproblems
        cases hproblems
      | ok more =>
        rw [← hdocs]
        refine List.Forall₂.cons ?_ (ih (Prod.ext rfl hrest))
        obtain ⟨ps, tail, htext, hcuts, hshort, rfl⟩ := subWith_fix hd
        split
        · exact ⟨rfl, ps, tail, htext, hcuts, hshort, rfl⟩
        · rename_i hsame
          have hsame' : joined Link.text (repairedPieces package ps) tail = d.text := by
            by_contra hne
            exact hsame ⟨hne, rfl⟩
          exact ⟨rfl, ps, tail, htext, hcuts, hshort, hsame'.symm⟩

/-- A run that changes no text leaves the docs as they are. -/
theorem repairDocs_same {mode : Mode} {P : Problem → Prop} {docs : List Doc}
    (h : ∀ d ∈ docs, ∃ noted, subWith LINK (repair mode package d.rel) d.text = .ok (d.text, noted) ∧
      ∀ p ∈ noted, P p) :
    ∃ problems, repairDocs mode package docs = (docs, .ok problems) ∧ ∀ p ∈ problems, P p := by
  induction docs with
  | nil => exact ⟨[], rfl, fun p hp => absurd hp List.not_mem_nil⟩
  | cons d ds ih =>
    obtain ⟨noted, hd, hP⟩ := h d List.mem_cons_self
    obtain ⟨problems, hds, hP'⟩ := ih fun e he => h e (List.mem_cons_of_mem d he)
    refine ⟨noted ++ problems, ?_, fun p hp => (List.mem_append.1 hp).elim (hP p) (hP' p)⟩
    rw [repairDocs, hd, hds]
    simp
    rfl

/-! ## A repaired doc -/

/-- The text of a link names its module, and its end, if it has one, is not 0. -/
def NamesItself (m : Hit) : Prop :=
  m.group 1 = m.group 4 ∧ (m.group 6 = [] ∨ PyText.intOfDigits (m.group 6) ≠ 0)

instance (m : Hit) : Decidable (NamesItself m) := inferInstanceAs (Decidable (_ ∧ _))

section Doc

variable {d d' : Doc}

theorem DocRepaired.kept (h : DocRepaired package d d') :
    (d'.rel, around LINK d'.text) = (d.rel, around LINK d.text) := by
  obtain ⟨hrel, ps, tail, htext, hcuts, -, htext'⟩ := h
  rw [hrel, htext, htext', around_joined hcuts, around_joined (cuts_repaired hcuts), repairedPieces, List.map_map]
  rfl

theorem DocRepaired.settled (h : DocRepaired package d d') :
    (∃ noted, subWith LINK (repair fixOnly package d'.rel) d'.text = .ok (d'.text, noted)) ∧
    ∃ noted, subWith LINK (repair checkOnly package d'.rel) d'.text = .ok (d'.text, noted) ∧
      ∀ p ∈ noted, Expected p := by
  obtain ⟨-, ps, tail, -, hcuts, hshort, htext'⟩ := h
  rw [htext']
  refine subWith_settled (cuts_repaired hcuts) fun p hp => ?_
  obtain ⟨q, hq, rfl⟩ := List.mem_map.1 hp
  exact ⟨repaired_short (hshort q hq), settled_repaired⟩

/-- A link is right after the run iff the run rewrote it or there was nothing else to mend. -/
theorem right_repaired_iff {gap : List Char} {l : Link} :
    LinkRight package ((l.repaired package).hit gap) ↔
      (RangeHolds package (l.hit gap) → NamesItself (l.hit gap)) := by
  by_cases hholds : RangeHolds package (l.hit gap)
  · rw [repaired_of_settled (settled_of_rangeHolds hholds), right_iff_of_holds hholds, imp_iff_right hholds]
    simp only [NamesItself, Link.group_hit, Link.part]
  · exact iff_of_true (right_of_not_holds hholds) fun h => absurd h hholds

theorem DocRepaired.right_iff (h : DocRepaired package d d') :
    (∀ m ∈ hits LINK d'.text, LinkRight package m) ↔
      ∀ m ∈ hits LINK d.text, RangeHolds package m → NamesItself m := by
  obtain ⟨-, ps, tail, htext, hcuts, -, htext'⟩ := h
  rw [htext, htext', hits_joined hcuts, hits_joined (cuts_repaired hcuts), repairedPieces, List.map_map,
    List.forall_mem_map, List.forall_mem_map]
  exact forall₂_congr fun p _ => right_repaired_iff

end Doc

end Docs

/-! ## What a run settles -/

/-- What is asked of the docs after a run that only fixes: the links are right, the text around them is as it
was, a second such run changes nothing, and a check finds only unknown symbols and blank lines. -/
structure Repaired (package : List SourceModule) (docs docs' : List Doc) : Prop where
  right : ∀ d ∈ docs', ∀ m ∈ hits LINK d.text, LinkRight (sources package) m
  kept : docs'.map (fun d => (d.rel, around LINK d.text)) = docs.map fun d => (d.rel, around LINK d.text)
  again : ∃ problems, run fixOnly package docs' = (docs', .ok problems)
  checked : ∃ problems, run checkOnly package docs' = (docs', .ok problems) ∧ ∀ p ∈ problems, Expected p

section Run

variable {package : List SourceModule} {docs docs' : List Doc} {problems : List Problem}

theorem kept_of_repaired {package : Dict String Source} (h : List.Forall₂ (DocRepaired package) docs docs') :
    docs'.map (fun d => (d.rel, around LINK d.text)) = docs.map fun d => (d.rel, around LINK d.text) := by
  induction h with
  | nil => rfl
  | cons hd _ ih => rw [List.map_cons, List.map_cons, hd.kept, ih]

theorem right_of_repaired {package : Dict String Source} (h : List.Forall₂ (DocRepaired package) docs docs') :
    (∀ d ∈ docs', ∀ m ∈ hits LINK d.text, LinkRight package m) ↔
      ∀ d ∈ docs, ∀ m ∈ hits LINK d.text, RangeHolds package m → NamesItself m := by
  induction h with
  | nil => exact iff_of_true (fun d hd => absurd hd List.not_mem_nil) fun d hd => absurd hd List.not_mem_nil
  | cons hd _ ih => rw [List.forall_mem_cons, List.forall_mem_cons, hd.right_iff, ih]

theorem exists_of_repaired {package : Dict String Source} (h : List.Forall₂ (DocRepaired package) docs docs') :
    ∀ d' ∈ docs', ∃ d, DocRepaired package d d' := by
  induction h with
  | nil => exact fun d' hd' => absurd hd' List.not_mem_nil
  | cons hd _ ih => exact List.forall_mem_cons.2 ⟨⟨_, hd⟩, ih⟩

/-- Whatever a run that only fixes leaves, a second one leaves as it is, and a check finds only what is
expected. -/
theorem runs_after (h : run fixOnly package docs = (docs', .ok problems)) :
    (∃ problems, run fixOnly package docs' = (docs', .ok problems)) ∧
    ∃ problems, run checkOnly package docs' = (docs', .ok problems) ∧ ∀ p ∈ problems, Expected p := by
  have hsettled := exists_of_repaired (docs_repaired h)
  constructor
  · obtain ⟨problems, hrun, -⟩ := @repairDocs_same _ fixOnly (fun _ => True) docs' fun d hd => by
      obtain ⟨_, hd⟩ := hsettled d hd
      obtain ⟨noted, hnoted⟩ := hd.settled.1
      exact ⟨noted, hnoted, fun _ _ => trivial⟩
    exact ⟨problems, hrun⟩
  · refine repairDocs_same fun d hd => ?_
    obtain ⟨_, hd⟩ := hsettled d hd
    exact hd.settled.2

/-- All that is asked holds after a run that only fixes iff every link whose range was left names its module
and does not end at line 0. -/
theorem fix_repairs_iff (h : run fixOnly package docs = (docs', .ok problems)) : Repaired package docs docs' ↔
    ∀ d ∈ docs, ∀ m ∈ hits LINK d.text, RangeHolds (sources package) m → NamesItself m := by
  have hdocs := docs_repaired h
  have hafter := runs_after h
  constructor
  · intro hr
    exact (right_of_repaired hdocs).1 hr.right
  · intro hnames
    exact ⟨(right_of_repaired hdocs).2 hnames, kept_of_repaired hdocs, hafter.1, hafter.2⟩

end Run

section Readme

variable {text : String} {P : Hit → Prop} [DecidablePred P]

/-- A package of one module, whose only line is `ONE = 1`. -/
def onePackage : List SourceModule :=
  [⟨"mod.py", "ONE = 1\n".toList, [.assign [.name "ONE"] ⟨⟨1, by decide⟩, some ⟨1, by decide⟩⟩]⟩]

/-- The docs that are only a README. -/
def readme (text : String) : List Doc := [⟨"README.md", text.toList⟩]

theorem forall_readme (h : (hits LINK text.toList).all (fun m => decide (P m)) = true) :
    ∀ d ∈ readme text, ∀ m ∈ hits LINK d.text, P m := by
  intro d hd m hm
  rw [List.mem_singleton.1 hd] at hm
  exact of_decide_eq_true (List.all_eq_true.1 h m hm)

theorem not_repaired_readme {docs : List Doc} (h : (hits LINK text.toList).any (fun m => decide (P m)) = true)
    (hP : ∀ m, P m → ¬ LinkRight (sources onePackage) m) : ¬ Repaired onePackage docs (readme text) := by
  intro hr
  obtain ⟨m, hm, hPm⟩ := List.any_eq_true.1 h
  exact hP m (of_decide_eq_true hPm) (hr.right _ (List.mem_singleton.2 rfl) m hm)

/-- Two links that have drifted, one with a title and one without. -/
def drifted : String := "[mod.py:7](mod.py#L7 \"ONE\"), [mod.py:3](mod.py#L2)"

/-- The text of `drifted` after a run. -/
def mended : String := "[mod.py:1](mod.py#L1 \"ONE\"), [mod.py:2](mod.py#L2)"

theorem fix_repairs_drifted : Repaired onePackage (readme drifted) (readme mended) := by
  have hrun : run fixOnly onePackage (readme drifted) = (readme mended, .ok
      [.moved "README.md" "mod.py" "ONE" (1, 1) (7, 7), .textDiffers "README.md" "mod.py" "3" "2"]) := by
    decide
  exact (fix_repairs_iff hrun).2 fun d hd m hm _ => forall_readme (by decide) d hd m hm

/-- The text of the link names a module that the link is not to. -/
def otherModule : String := "[config.py:1](knowledge_desk/mod.py#L1 \"ONE\")"

/-- The link ends at line 0, and its text has no end. -/
def zeroEnd : String := "[mod.py:1](knowledge_desk/mod.py#L1-L0)"

theorem fix_leaves_wrong_links :
    (run fixOnly onePackage (readme otherModule) = (readme otherModule, .ok []) ∧
      ¬ Repaired onePackage (readme otherModule) (readme otherModule)) ∧
    run fixOnly onePackage (readme zeroEnd) = (readme zeroEnd, .ok []) ∧
      ¬ Repaired onePackage (readme zeroEnd) (readme zeroEnd) := by
  have hone : ((sources onePackage).get? "mod.py").bind (fun src => src.ranges.get? "ONE") =
      some (⟨1, by decide⟩, ⟨1, by decide⟩) := by decide
  obtain ⟨src, hsrc, hwant⟩ := Option.bind_eq_some_iff.1 hone
  refine ⟨⟨by decide, ?_⟩, by decide, ?_⟩
  · refine not_repaired_readme (P := fun m => m.group 1 ≠ m.group 4 ∧ String.ofList (m.group 4) = "mod.py" ∧
      m.group 7 ≠ [] ∧ String.ofList (m.group 7) = "ONE") (by decide) ?_
    rintro m ⟨hmod, hfour, hne, hseven⟩ hright
    obtain ⟨-, hnames, -⟩ := hright.titled src _ (hfour ▸ hsrc) hne (hseven ▸ hwant)
    exact hmod hnames
  · refine not_repaired_readme (P := fun m => m.group 2 ≠ anchorText m ∧ String.ofList (m.group 4) = "mod.py" ∧
      m.group 7 = []) (by decide) ?_
    rintro m ⟨htext, hfour, hnil⟩ hright
    exact htext (hright.untitled src (hfour ▸ hsrc) hnil).2

end Readme

end KnowledgeDesk.Proofs

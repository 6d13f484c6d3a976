import Mathlib.Data.Finset.Basic
import Mathlib.Tactic.Common

/-!
# Votes with locks

Voters decide on one block after another in three phases. A ballot is the vote
of an honest voter in a phase and a view, with what the voter knew when it cast
it: its newest decided block (the base), the certificate that justifies the
vote and the certificate it is locked on. `Legal` lists the rules of casting
over a log, the newest ballot first. Two blocks on the same parent that are
both certified in the commit phase of a legal log are the same block.

A block can be certified again in later views, and its parent too, by voters
that have not decided on it yet. The argument rests on the first certificate of
a block: those who cast it had the parent as their base, so the parent is only
certified in smaller views.
-/

namespace VoteLog

inductive Phase where
  | prepare
  | preCommit
  | commit
  deriving DecidableEq, Repr

/-- What a certificate is about. -/
structure Ref (β : Type*) where
  view : Nat
  block : β

structure Ballot (ι β : Type*) where
  voter : ι
  phase : Phase
  view : Nat
  block : β
  base : β
  justify : Ref β
  lock : Ref β

/-- Voters whose quorums meet in an honest one, and a tree of blocks. -/
structure System (ι β : Type*) where
  honest : Set ι
  quorum : Set (Finset ι)
  meet : ∀ s ∈ quorum, ∀ t ∈ quorum, ∃ a ∈ honest, a ∈ s ∧ a ∈ t
  genesis : β
  parent : β → β
  height : β → Nat
  height_genesis : height genesis = 0

variable {ι β : Type*}

/-- The voter has cast a ballot for the block. -/
def Cast (log : List (Ballot ι β)) (voter : ι) (phase : Phase) (view : Nat) (block : β) :
    Prop :=
  ∃ b ∈ log, b.voter = voter ∧ b.phase = phase ∧ b.view = view ∧ b.block = block

theorem Cast.mono {log log' : List (Ballot ι β)} (h : log ⊆ log') {voter : ι} {phase : Phase}
    {view : Nat} {block : β} (hcast : Cast log voter phase view block) :
    Cast log' voter phase view block := by
  obtain ⟨b, hb, hcast⟩ := hcast
  exact ⟨b, h hb, hcast⟩

namespace System

variable (S : System ι β)

/-- The honest voters of a quorum have cast their ballots for the block. -/
def Cert (log : List (Ballot ι β)) (phase : Phase) (view : Nat) (block : β) : Prop :=
  ∃ s ∈ S.quorum, ∀ a ∈ s, a ∈ S.honest → Cast log a phase view block

/-- The certificate exists, or it is the one of genesis. -/
def Known (log : List (Ballot ι β)) (r : Ref β) : Prop :=
  r = ⟨0, S.genesis⟩ ∨ ∃ phase, S.Cert log phase r.view r.block

/-- The block is the one of the certificate, or a child of the base when the
certificate is for the base. -/
def Extends (base block : β) (r : Ref β) : Prop :=
  (r.block = base ∧ S.parent block = base) ∨ block = r.block

/-- The rules for a ballot of the first phase. -/
structure Safe (log : List (Ballot ι β)) (b : Ballot ι β) : Prop where
  once : ∀ a ∈ log, a.voter = b.voter → a.phase = .prepare → a.view = b.view →
    a.block = b.block
  height : S.height b.block = S.height (S.parent b.block) + 1
  above : S.height b.base < S.height b.block
  justify : S.Known log b.justify
  lock : S.Known log b.lock
  locked : ∀ a ∈ log, a.voter = b.voter → a.phase = .commit → a.view ≤ b.lock.view
  justified : S.Extends b.base b.block b.justify
  unlocked : S.Extends b.base b.block b.lock ∨ b.lock.view < b.justify.view

/-- A ballot that may be cast after the ones of the log. -/
structure Allowed (log : List (Ballot ι β)) (b : Ballot ι β) : Prop where
  view_pos : 0 < b.view
  view_le : ∀ a ∈ log, a.voter = b.voter → a.view ≤ b.view
  base_le : ∀ a ∈ log, a.voter = b.voter → S.height a.base ≤ S.height b.base
  prepare : b.phase = .prepare → S.Safe log b
  preCommit : b.phase = .preCommit → S.Cert log .prepare b.view b.block
  commit : b.phase = .commit → S.Cert log .preCommit b.view b.block

/-- Every ballot of the log was allowed when it was cast. -/
inductive Legal : List (Ballot ι β) → Prop
  | nil : Legal []
  | cons {log : List (Ballot ι β)} {b : Ballot ι β} (h : Legal log) (hb : S.Allowed log b) :
      Legal (b :: log)

variable {S} {log : List (Ballot ι β)}

/-! ## Certificates -/

theorem Cert.mono {log' : List (Ballot ι β)} (hsub : log ⊆ log') {phase : Phase} {view : Nat}
    {block : β} (h : S.Cert log phase view block) : S.Cert log' phase view block := by
  obtain ⟨s, hs, hcast⟩ := h
  exact ⟨s, hs, fun a ha hhonest => (hcast a ha hhonest).mono hsub⟩

theorem Known.mono {log' : List (Ballot ι β)} (hsub : log ⊆ log') {r : Ref β}
    (h : S.Known log r) : S.Known log' r :=
  h.imp_right fun ⟨phase, hcert⟩ => ⟨phase, hcert.mono hsub⟩

/-- Some honest voter has cast both ballots. -/
theorem Cert.meet {phase phase' : Phase} {view view' : Nat} {block block' : β}
    (h : S.Cert log phase view block) {log' : List (Ballot ι β)}
    (h' : S.Cert log' phase' view' block') :
    ∃ a ∈ S.honest, Cast log a phase view block ∧ Cast log' a phase' view' block' := by
  obtain ⟨s, hs, hcast⟩ := h
  obtain ⟨t, ht, hcast'⟩ := h'
  obtain ⟨a, hhonest, has, hat⟩ := S.meet s hs t ht
  exact ⟨a, hhonest, hcast a has hhonest, hcast' a hat hhonest⟩

theorem Cert.exists_mem {phase : Phase} {view : Nat} {block : β}
    (h : S.Cert log phase view block) :
    ∃ b ∈ log, b.phase = phase ∧ b.view = view ∧ b.block = block := by
  obtain ⟨a, -, ⟨b, hb, -, hcast⟩, -⟩ := h.meet h
  exact ⟨b, hb, hcast⟩

/-! ## The order of the ballots -/

/-- A ballot of a legal log was allowed after the ones below it. -/
theorem Legal.of_append {later earlier : List (Ballot ι β)} {b : Ballot ι β}
    (h : S.Legal (later ++ b :: earlier)) : S.Legal earlier ∧ S.Allowed earlier b := by
  induction later with
  | nil =>
      cases h with
      | cons h hb => exact ⟨h, hb⟩
  | cons a later ih =>
      cases h with
      | cons h ha => exact ih h

theorem Legal.suffix {log' : List (Ballot ι β)} (h : S.Legal log) (hsuffix : log' <:+ log) :
    S.Legal log' := by
  obtain ⟨later, rfl⟩ := hsuffix
  induction later with
  | nil => exact h
  | cons a later ih =>
      cases h with
      | cons h ha => exact ih h

/-- Of two ballots of one voter the one of the smaller view was cast first. -/
theorem Legal.mem_earlier {later earlier : List (Ballot ι β)} {a b : Ballot ι β}
    (h : S.Legal (later ++ b :: earlier)) (ha : a ∈ later ++ b :: earlier)
    (hvoter : a.voter = b.voter) (hlt : a.view < b.view) : a ∈ earlier := by
  rcases List.mem_append.1 ha with hlater | hmem
  · obtain ⟨later', between, rfl⟩ := List.append_of_mem hlater
    rw [List.append_assoc] at h
    have hle := h.of_append.2.view_le b (List.mem_append_right _ List.mem_cons_self)
      hvoter.symm
    exact absurd hlt (not_lt.2 hle)
  · rcases List.mem_cons.1 hmem with rfl | hearlier
    · exact absurd hlt (lt_irrefl _)
    · exact hearlier

/-- A voter prepares one block in a view. -/
theorem Legal.prepare_unique (h : S.Legal log) {a b : Ballot ι β} (ha : a ∈ log)
    (hb : b ∈ log) (hvoter : a.voter = b.voter) (hphase : a.phase = .prepare)
    (hphase' : b.phase = .prepare) (hview : a.view = b.view) : a.block = b.block := by
  induction h with
  | nil => cases ha
  | cons h hallowed ih =>
      rcases List.mem_cons.1 ha with rfl | hold
      · rcases List.mem_cons.1 hb with rfl | hold'
        · rfl
        · exact ((hallowed.prepare hphase).once b hold' hvoter.symm hphase' hview.symm).symm
      · rcases List.mem_cons.1 hb with rfl | hold'
        · exact (hallowed.prepare hphase').once a hold hvoter hphase hview
        · exact ih hold hold'

/-! ## What a certificate implies -/

/-- A certified block has been certified in the prepare phase of the same view. -/
theorem Legal.prepare_cert (h : S.Legal log) {phase : Phase} {view : Nat} {block : β}
    (hcert : S.Cert log phase view block) : S.Cert log .prepare view block := by
  have hcommit {log : List (Ballot ι β)} (h : S.Legal log)
      (hcert : S.Cert log .preCommit view block) : S.Cert log .prepare view block := by
    obtain ⟨b, hb, hphase, rfl, rfl⟩ := hcert.exists_mem
    obtain ⟨later, earlier, rfl⟩ := List.append_of_mem hb
    refine (h.of_append.2.preCommit hphase).mono ?_
    exact fun a ha => List.mem_append_right _ (List.mem_cons_of_mem _ ha)
  cases phase with
  | prepare => exact hcert
  | preCommit => exact hcommit h hcert
  | commit =>
      obtain ⟨b, hb, hphase, rfl, rfl⟩ := hcert.exists_mem
      obtain ⟨later, earlier, rfl⟩ := List.append_of_mem hb
      refine (hcommit h.of_append.1 (h.of_append.2.commit hphase)).mono ?_
      exact fun a ha => List.mem_append_right _ (List.mem_cons_of_mem _ ha)

theorem Legal.preCommit_cert (h : S.Legal log) {view : Nat} {block : β}
    (hcert : S.Cert log .commit view block) : S.Cert log .preCommit view block := by
  obtain ⟨b, hb, hphase, rfl, rfl⟩ := hcert.exists_mem
  obtain ⟨later, earlier, rfl⟩ := List.append_of_mem hb
  refine (h.of_append.2.commit hphase).mono ?_
  exact fun a ha => List.mem_append_right _ (List.mem_cons_of_mem _ ha)

theorem Legal.prepare_cert_unique (h : S.Legal log) {view : Nat} {block block' : β}
    (hcert : S.Cert log .prepare view block) (hcert' : S.Cert log .prepare view block') :
    block = block' := by
  obtain ⟨a, -, ⟨b, hb, hvoter, hphase, hview, rfl⟩, b', hb', hvoter', hphase', hview', rfl⟩ :=
    hcert.meet hcert'
  exact h.prepare_unique hb hb' (hvoter.trans hvoter'.symm) hphase hphase'
    (hview.trans hview'.symm)

theorem Legal.view_pos (h : S.Legal log) {phase : Phase} {view : Nat} {block : β}
    (hcert : S.Cert log phase view block) : 0 < view := by
  obtain ⟨b, hb, -, rfl, -⟩ := hcert.exists_mem
  obtain ⟨later, earlier, rfl⟩ := List.append_of_mem hb
  exact h.of_append.2.view_pos

theorem Legal.height_eq (h : S.Legal log) {phase : Phase} {view : Nat} {block : β}
    (hcert : S.Cert log phase view block) :
    S.height block = S.height (S.parent block) + 1 := by
  obtain ⟨b, hb, hphase, -, rfl⟩ := (h.prepare_cert hcert).exists_mem
  obtain ⟨later, earlier, rfl⟩ := List.append_of_mem hb
  exact (h.of_append.2.prepare hphase).height

/-- What is known of a view above `0` is certified. -/
theorem Legal.cert_of_known (h : S.Legal log) {r : Ref β} (hknown : S.Known log r)
    (hpos : 0 < r.view) : S.Cert log .prepare r.view r.block := by
  rcases hknown with rfl | ⟨phase, hcert⟩
  · exact absurd hpos (lt_irrefl 0)
  · exact h.prepare_cert hcert

/-! ## The first certificate of a block -/

/-- The ballots that first certify the block, and the view of the certificate. -/
structure First (S : System ι β) (log first : List (Ballot ι β)) (block : β) (view : Nat) :
    Prop where
  suffix : first <:+ log
  cert : S.Cert first .prepare view block
  fresh : ∀ b earlier, b :: earlier <:+ first → ∀ v, ¬ S.Cert earlier .prepare v block

theorem exists_first {block : β} {view : Nat} (hcert : S.Cert log .prepare view block) :
    ∃ first w, First S log first block w := by
  induction log generalizing view with
  | nil =>
      obtain ⟨b, hb, -⟩ := hcert.exists_mem
      cases hb
  | cons b log ih =>
      by_cases hold : ∃ v, S.Cert log .prepare v block
      · obtain ⟨v, hv⟩ := hold
        obtain ⟨first, w, hfirst⟩ := ih hv
        exact ⟨first, w, hfirst.suffix.trans (List.suffix_cons b log), hfirst.cert,
          hfirst.fresh⟩
      · refine ⟨b :: log, view, List.suffix_rfl, hcert, ?_⟩
        intro a earlier hsuffix v hv
        -- what lies below a ballot of the log is part of its tail
        have htail : earlier <:+ log := by
          rcases List.suffix_cons_iff.1 hsuffix with heq | hsuffix
          · rw [List.cons.inj heq |>.2]
          · exact (List.suffix_cons a earlier).trans hsuffix
        exact hold ⟨v, hv.mono htail.subset⟩

/-- Who takes part in the first certificate of a block has its parent as the
base. -/
theorem First.base_eq {first : List (Ballot ι β)} {block : β} {w : Nat} (h : S.Legal log)
    (hfirst : First S log first block w) {b : Ballot ι β} (hb : b ∈ first)
    (hphase : b.phase = .prepare) (hblock : b.block = block) :
    b.base = S.parent block := by
  subst hblock
  obtain ⟨later, earlier, rfl⟩ := List.append_of_mem hb
  obtain ⟨hlegal, hallowed⟩ := (h.suffix hfirst.suffix).of_append
  have hsafe := hallowed.prepare hphase
  rcases hsafe.justified with ⟨-, hparent⟩ | hsame
  · exact hparent.symm
  · rcases hsafe.justify with hgenesis | ⟨phase, hcert⟩
    · have hzero : S.height b.block = 0 := by
        rw [hsame, hgenesis]
        exact S.height_genesis
      rw [hsafe.height] at hzero
      cases hzero
    · have hprepare := hlegal.prepare_cert hcert
      rw [← hsame] at hprepare
      exact absurd hprepare (hfirst.fresh b earlier (List.suffix_append _ _) _)

/-- The parent is only certified before the first certificate of the block. -/
theorem First.lt_of_parent {first : List (Ballot ι β)} {block : β} {w : Nat} (h : S.Legal log)
    (hfirst : First S log first block w) {u : Nat}
    (hparent : S.Cert log .prepare u (S.parent block)) : u < w := by
  have hheight := h.height_eq (hfirst.cert.mono hfirst.suffix.subset)
  obtain ⟨a, -, ⟨b, hb, hvoter, hphase, hview, hblock⟩, p, hp, hvoter', hphase', hview',
    hblock'⟩ := hfirst.cert.meet hparent
  have hbase := hfirst.base_eq h hb hphase hblock
  have hsame : p.voter = b.voter := hvoter'.trans hvoter.symm
  have hb' := hfirst.suffix.subset hb
  rcases lt_trichotomy p.view b.view with hlt | heq | hlt
  · rw [← hview, ← hview']
    exact hlt
  · have hone := h.prepare_unique hp hb' hsame hphase' hphase heq
    rw [hblock, hblock'] at hone
    rw [hone] at hheight
    exact absurd hheight (Nat.ne_of_lt (Nat.lt_succ_self _))
  · -- the voter had the parent as its base when it voted for the parent
    obtain ⟨later, earlier, rfl⟩ := List.append_of_mem hp
    have hmem := h.mem_earlier hb' hsame.symm hlt
    have hallowed := h.of_append.2
    have hle := hallowed.base_le b hmem hsame.symm
    have habove := (hallowed.prepare hphase').above
    rw [hblock'] at habove
    rw [hbase] at hle
    exact absurd (hle.trans_lt habove) (lt_irrefl _)

/-- The first certificate of a block is not of a later view than one of the next
phase. -/
theorem First.le_of_preCommit {first : List (Ballot ι β)} {block : β} {w : Nat}
    (h : S.Legal log) (hfirst : First S log first block w) {v : Nat}
    (hcert : S.Cert log .preCommit v block) : w ≤ v := by
  by_contra hlt
  rw [not_le] at hlt
  obtain ⟨a, -, ⟨b, hb, hvoter, hphase, hview, hblock⟩, c, hc, hvoter', hphase', hview',
    hblock'⟩ := hfirst.cert.meet hcert
  obtain ⟨rest, hrest⟩ := hfirst.suffix
  obtain ⟨later, earlier, rfl⟩ := List.append_of_mem hb
  rw [← List.append_assoc] at hrest
  subst hrest
  have hmem : c ∈ earlier := by
    refine h.mem_earlier hc (hvoter'.trans hvoter.symm) ?_
    rw [hview, hview']
    exact hlt
  obtain ⟨later', below, rfl⟩ := List.append_of_mem hmem
  have hprepare := (h.of_append.1.of_append.2.preCommit hphase')
  rw [hblock'] at hprepare
  refine hfirst.fresh b (later' ++ c :: below) (List.suffix_append _ _) _
    (hprepare.mono ?_)
  exact fun x hx => List.mem_append_right _ (List.mem_cons_of_mem _ hx)

/-! ## Agreement -/

/-- A certificate of the parent is older than one of the pre-commit phase of the
block. -/
theorem Legal.lt_of_parent (h : S.Legal log) {block : β} {v u : Nat}
    (hcert : S.Cert log .preCommit v block)
    (hparent : S.Cert log .prepare u (S.parent block)) : u < v := by
  obtain ⟨first, w, hfirst⟩ := exists_first (h.prepare_cert hcert)
  exact (hfirst.lt_of_parent h hparent).trans_le (hfirst.le_of_preCommit h hcert)

/-- Who has voted to commit a block prepares no other block on the same parent
in a later view. -/
theorem Legal.prepares_committed (h : S.Legal log) {block : β} {v : Nat}
    (hcommit : S.Cert log .commit v block) {log' : List (Ballot ι β)} (hsuffix : log' <:+ log)
    {b : Ballot ι β} (hb : b ∈ log') (hphase : b.phase = .prepare) (hview : v < b.view)
    (hparent : S.parent b.block = S.parent block)
    (hcast : Cast log b.voter .commit v block) : b.block = block := by
  have hlegal := h.suffix hsuffix
  have hpre := h.preCommit_cert hcommit
  induction log' generalizing b with
  | nil => cases hb
  | cons x rest ih =>
      have hrest : rest <:+ log := (List.suffix_cons x rest).trans hsuffix
      cases hlegal with
      | cons hlegal hallowed =>
          rcases List.mem_cons.1 hb with rfl | hold
          · have hsafe := hallowed.prepare hphase
            obtain ⟨c, hc, hvoter, hphase', hview', hblock'⟩ := hcast
            have hc' : c ∈ rest := by
              obtain ⟨later, rfl⟩ := hsuffix
              refine h.mem_earlier hc hvoter ?_
              rw [hview']
              exact hview
            have hlock : v ≤ b.lock.view := by
              rw [← hview']
              exact hsafe.locked c hc' hvoter hphase'
            -- a certificate of this view or a later one that the block extends
            have hextends : ∀ r : Ref β, S.Known rest r → v ≤ r.view →
                S.Extends b.base b.block r → b.block = block := by
              intro r hknown hle hext
              have hpos := (h.view_pos hcommit).trans_le hle
              have hcert := hlegal.cert_of_known hknown hpos
              rcases hext with ⟨hbase, hchild⟩ | hsame
              · rw [hbase, ← hchild, hparent] at hcert
                exact absurd (h.lt_of_parent hpre (hcert.mono hrest.subset))
                  (not_lt.2 hle)
              · rw [← hsame] at hcert
                rcases hle.lt_or_eq with hlt | heq
                · obtain ⟨a, -, hvoted, d, hd, hvoterd, hphased, hviewd, hblockd⟩ :=
                    hcommit.meet hcert
                  rw [← hblockd]
                  refine ih hrest hd hphased ?_ ?_ ?_ hlegal
                  · rw [hviewd]
                    exact hlt
                  · rw [hblockd]
                    exact hparent
                  · rw [hvoterd]
                    exact hvoted
                · rw [← heq] at hcert
                  exact h.prepare_cert_unique (hcert.mono hrest.subset) (h.prepare_cert hpre)
            rcases hsafe.unlocked with hext | hhigher
            · exact hextends b.lock hsafe.lock hlock hext
            · exact hextends b.justify hsafe.justify (hlock.trans hhigher.le) hsafe.justified
          · exact ih hrest hold hphase hview hparent hcast hlegal

theorem Legal.committed_unique (h : S.Legal log) {block block' : β} {v v' : Nat}
    (hcommit : S.Cert log .commit v block) (hcommit' : S.Cert log .commit v' block')
    (hparent : S.parent block = S.parent block') : block = block' := by
  have hlater {block block' : β} {v v' : Nat} (hcommit : S.Cert log .commit v block)
      (hcommit' : S.Cert log .commit v' block') (hparent : S.parent block = S.parent block')
      (hlt : v < v') : block = block' := by
    obtain ⟨a, -, hcast, b, hb, hvoter, hphase, hview, hblock⟩ :=
      hcommit.meet (h.prepare_cert hcommit')
    rw [← hblock]
    refine (h.prepares_committed hcommit List.suffix_rfl hb hphase ?_ ?_ ?_).symm
    · rw [hview]
      exact hlt
    · rw [hblock]
      exact hparent.symm
    · rw [hvoter]
      exact hcast
  rcases lt_trichotomy v v' with hlt | rfl | hlt
  · exact hlater hcommit hcommit' hparent hlt
  · exact h.prepare_cert_unique (h.prepare_cert hcommit) (h.prepare_cert hcommit')
  · exact (hlater hcommit' hcommit hparent.symm hlt).symm

/-! ## Chains -/

/-- A chain of committed blocks over genesis, the newest first. -/
inductive Chain (S : System ι β) (log : List (Ballot ι β)) : List β → Prop
  | nil : Chain S log []
  | cons {blocks : List β} {block : β} {view : Nat} (h : Chain S log blocks)
      (parent : S.parent block = blocks.headD S.genesis)
      (cert : S.Cert log .commit view block) : Chain S log (block :: blocks)

/-- Two chains of the same length are the same. -/
theorem Chain.eq_of_length (h : S.Legal log) {blocks blocks' : List β}
    (hchain : Chain S log blocks) (hchain' : Chain S log blocks')
    (hlength : blocks.length = blocks'.length) : blocks = blocks' := by
  induction hchain generalizing blocks' with
  | nil => exact (List.length_eq_zero_iff.1 hlength.symm).symm
  | cons hchain parent cert ih =>
      cases hchain' with
      | nil => cases hlength
      | cons hchain' parent' cert' =>
          have htail := ih hchain' (Nat.succ.inj hlength)
          subst htail
          rw [h.committed_unique cert cert' (parent.trans parent'.symm)]

theorem Chain.suffix {blocks blocks' : List β} (h : Chain S log blocks)
    (hsuffix : blocks' <:+ blocks) : Chain S log blocks' := by
  obtain ⟨later, rfl⟩ := hsuffix
  induction later with
  | nil => exact h
  | cons a later ih =>
      cases h with
      | cons h parent cert => exact ih h

/-- Of two chains the shorter one is the lower part of the longer one. -/
theorem Chain.suffix_of_length_le (h : S.Legal log) {blocks blocks' : List β}
    (hchain : Chain S log blocks) (hchain' : Chain S log blocks')
    (hlength : blocks.length ≤ blocks'.length) : blocks <:+ blocks' := by
  have hpart := hchain'.suffix (List.drop_suffix (blocks'.length - blocks.length) blocks')
  have heq := hchain.eq_of_length h hpart (by rw [List.length_drop]; omega)
  rw [heq]
  exact List.drop_suffix _ _

end System

end VoteLog

/-
  File:      RocketMQ/Push/Cursor.lean
  Subject:   The pull cursor of a queue and the loop that owns it.

  * `Sound`: the states in which the cursor can be relied on. Between an OFFSET_ILLEGAL answer and
    the retirement it leads to, and after a shutdown, it cannot;
  * `CursorRule`: a property of cursors that holds of every installed cursor and is carried on by
    every pull holds of the cursor in every sound state of a run (`cursorOk_run`).

  All of it is about runs in which no loop of an older generation overwrites the cursor of a newer
  owner (`OwnCursor`).
-/
import RocketMQ.Push.Ownership

namespace RocketMQ

open List Machine

/-! ## 1. The owner's loop -/

/-- Nothing was pulled in that generation. -/
def Unpulled (tr : List QEvent) (g : Nat) : Prop := ∀ t o res ms, .pulled t g o res ms ∉ tr

variable {tr evs : List QEvent} {g t : Nat} {q q' : Queue} {m : Mode} {r' : Row} {pc pc' : LoopPc}
  {l r : List (Nat × LoopPc)} {req : Int} {res : PullResult} {ms : List MessageExt}
  {started : Bool}

theorem Unpulled.mono (h : Unpulled tr g) (hev : Unpulled evs g) : Unpulled (tr ++ evs) g := by
  intro t o res ms hmem
  rcases mem_append.mp hmem with hmem | hmem
  · exact h t o res ms hmem
  · exact hev t o res ms hmem

/-- A loop that has resolved its cursor does not meet another owner. -/
def OwnCursor : QEvent → Prop
  | .resolved t owner _ _ => owner = some t ∨ owner = none
  | _ => True

instance : DecidablePred OwnCursor := fun e => by
  apply QEvent.casesOn (motive := fun e => Decidable (OwnCursor e)) e
  case resolved =>
    exact fun t owner _ _ => inferInstanceAs (Decidable (owner = some t ∨ owner = none))
  all_goals intros; exact .isTrue trivial

/-- The loop holds a cursor, or is about to write one. -/
def LoopPc.atCursor : LoopPc → Bool
  | .resolve _ | .pull _ _ => true
  | _ => false

/-- **The owner pulls at the cursor.** -/
structure CursorInv (tr : List QEvent) (q : Queue) : Prop where
  pulling : ∀ t sub off, q.row.queueOwners = some t → (t, .pull sub off) ∈ q.loops →
    q.row.offsetTable = some off
  resolving : ∀ t sub, q.row.queueOwners = some t → (t, .resolve sub) ∈ q.loops →
    Unpulled tr q.row.epoch
  missing : q.row.offsetTable = none → Unpulled tr q.row.epoch

theorem cursorInv_init : CursorInv [] Queue.init where
  pulling := fun _ _ _ h => nomatch h
  resolving := fun _ _ h => nomatch h
  missing := fun _ _ _ _ _ h => nomatch h

/-- A step that leaves owner, generation and cursor alone, pulls nothing, and brings no loop to
the cursor. -/
theorem CursorInv.frame (hi : CursorInv tr q) (hev : ∀ g, Unpulled evs g)
    (ho : q'.row.queueOwners = none ∨ q'.row.queueOwners = q.row.queueOwners)
    (he : q'.row.epoch = q.row.epoch) (hc : q'.row.offsetTable = q.row.offsetTable)
    (hl : ∀ t pc, (t, pc) ∈ q'.loops → (t, pc) ∈ q.loops ∨ pc.atCursor = false) :
    CursorInv (tr ++ evs) q' := by
  have hown : ∀ t, q'.row.queueOwners = some t → q.row.queueOwners = some t := by
    intro t h
    rcases ho with ho | ho
    · cases ho.symm.trans h
    · rw [← ho]
      exact h
  refine ⟨?_, ?_, ?_⟩
  · intro t sub off h hmem
    rcases hl t _ hmem with hmem | hpc
    · rw [hc]
      exact hi.pulling t sub off (hown t h) hmem
    · cases hpc
  · intro t sub h hmem
    rw [he]
    rcases hl t _ hmem with hmem | hpc
    · exact (hi.resolving t sub (hown t h) hmem).mono (hev _)
    · cases hpc
  · intro hnone
    rw [he]
    exact (hi.missing (hc ▸ hnone)).mono (hev _)

theorem CursorInv.retired (hu : Unowned tr q) (hev : ∀ g, Unpulled evs g)
    (hr : q'.row = (q.row.retireQueueLocked none).1) : CursorInv (tr ++ evs) q' := by
  have hnew : Unpulled (tr ++ evs) q'.row.epoch := by
    have hep : q'.row.epoch = q.row.epoch + 1 := by rw [hr]; rfl
    refine Unpulled.mono ?_ (hev _)
    intro t o res ms hmem
    have := hu.pulled_le t _ o res ms hmem
    omega
  have hnone : q'.row.queueOwners = none := by rw [hr]; rfl
  refine ⟨?_, ?_, fun _ => hnew⟩
  · intro t sub off h
    cases hnone.symm.trans h
  · intro t sub h
    cases hnone.symm.trans h

theorem LoopRule.cursorInv (ht : Tokens tr q) (hi : CursorInv tr q) (hown : ∀ e ∈ evs, OwnCursor e)
    (hl : q.loops = l ++ (t, pc) :: r) (h : LoopRule m q.started t q.row pc evs r' pc') :
    CursorInv (tr ++ evs) { q with row := r', loops := l ++ (t, pc') :: r } := by
  have hmem t' c (hm : (t', c) ∈ l ++ (t, pc') :: r) :=
    Assoc.mem_replace hl ht.nodup hm
  -- the loops that reach no cursor change nothing here
  have hquiet : pc'.atCursor = false → (∀ g, Unpulled evs g) →
      r'.queueOwners = q.row.queueOwners → r'.epoch = q.row.epoch →
      r'.offsetTable = q.row.offsetTable →
      CursorInv (tr ++ evs) { q with row := r', loops := l ++ (t, pc') :: r } := by
    intro hpc hev ho he hc
    exact hi.frame hev (.inr ho) he hc (Assoc.mem_replace_or hl hpc)
  cases h with
  | cached hc =>
    rw [append_nil]
    refine ⟨?_, ?_, hi.missing⟩
    · intro t' sub' off' ho hm
      rcases hmem t' _ hm with ⟨rfl, h⟩ | ⟨_, hm⟩
      · cases h
        exact hc
      · exact hi.pulling t' sub' off' ho hm
    · intro t' sub' ho hm
      rcases hmem t' _ hm with ⟨_, h⟩ | ⟨_, hm⟩
      · cases h
      · exact hi.resolving t' sub' ho hm
  | missing hc =>
    rw [append_nil]
    refine ⟨?_, ?_, hi.missing⟩
    · intro t' sub' off' ho hm
      rcases hmem t' _ hm with ⟨_, h⟩ | ⟨_, hm⟩
      · cases h
      · exact hi.pulling t' sub' off' ho hm
    · intro t' sub' ho hm
      rcases hmem t' _ hm with ⟨_, _⟩ | ⟨_, hm⟩
      · exact hi.missing hc
      · exact hi.resolving t' sub' ho hm
  | resolved off =>
    -- no other loop than the one that resolved owns the queue
    have hot : ∀ t', q.row.queueOwners = some t' → t' = t := by
      intro t' ho
      have hw : OwnCursor (.resolved t q.row.queueOwners q.row.epoch off) :=
        hown _ (mem_singleton.mpr rfl)
      rcases hw with hw | hw
      · rw [hw] at ho
        exact (Option.some.inj ho).symm
      · cases hw.symm.trans ho
    refine ⟨?_, ?_, fun hnone => nomatch hnone⟩
    · intro t' sub' off' ho hm
      rcases hmem t' _ hm with ⟨_, h⟩ | ⟨hne, _⟩
      · cases h
        rfl
      · exact absurd (hot t' ho) hne
    · intro t' sub' ho hm
      rcases hmem t' _ hm with ⟨_, h⟩ | ⟨hne, _⟩
      · cases h
      · exact absurd (hot t' ho) hne
  | pulled mq res msgs hot =>
    obtain ⟨mq', p, c, f, hr, _⟩ := q.row.bookPull_writes mq res msgs
    rw [hr]
    have hpc : ∀ pc0 : LoopPc, pc0 = (if res.status = .offsetIllegal then .illegal else .top) →
        pc0.atCursor = false := by
      rintro pc0 rfl
      split <;> rfl
    have hother : ∀ t' c, q.row.queueOwners = some t' →
        (t', c) ∈ l ++ (t, if res.status = .offsetIllegal then LoopPc.illegal else .top) :: r →
        c.atCursor = false := by
      intro t' c ho hm
      rcases hmem t' _ hm with ⟨_, h⟩ | ⟨hne, _⟩
      · exact hpc c h
      · rw [hot] at ho
        exact absurd (Option.some.inj ho).symm hne
    refine ⟨?_, ?_, fun hnone => nomatch hnone⟩
    · intro t' sub' off' ho hm
      cases hother t' _ ho hm
    · intro t' sub' ho hm
      cases hother t' _ ho hm
  | gatePassed now hf =>
    refine hquiet rfl ?_ rfl rfl rfl
    intro g t' o res ms hm
    simp at hm
  | _ => exact hquiet rfl (fun g t' o res ms hm => by simp at hm) rfl rfl rfl

theorem unpulled_nil (g : Nat) : Unpulled [] g := fun _ _ _ _ h => nomatch h

theorem cursorInv_step (ht : Tokens tr q) (hu : Unowned tr q) (hi : CursorInv tr q)
    (hown : ∀ e ∈ evs, OwnCursor e) (hs : QStep m q evs q') : CursorInv (tr ++ evs) q' := by
  have hsame : ∀ t pc, (t, pc) ∈ q.loops → (t, pc) ∈ q.loops ∨ pc.atCursor = false :=
    fun _ _ h => .inl h
  cases hs with
  | loop hl h => exact h.cursorInv ht hi hown hl
  | exit hl =>
    obtain ⟨a, ha⟩ := q.row.markPullLoopExited_writes _
    rw [ha]
    exact hi.frame unpulled_nil (.inr rfl) rfl rfl fun _ _ hm => .inl (Assoc.mem_erase hl hm)
  | illegal | retire => exact CursorInv.retired hu (fun g t o res ms h => by simp at h) rfl
  | resume hl | spawn hl =>
    exact hi.frame unpulled_nil (.inr rfl) rfl rfl (Assoc.mem_replace_or hl rfl)
  | abort hst hl => exact hi.frame unpulled_nil (.inr rfl) rfl rfl fun _ _ h => .inl (hl.subset h)
  | register mq now ho hl htk hn =>
    rename_i l r t n
    -- the new owner has not reached the cursor yet
    have hmem : ∀ c, (t, c) ∈ l ++ (t, .unspawned) :: r → c = .unspawned := by
      intro c hm
      rcases Assoc.mem_insert hm with ⟨_, h⟩ | hm
      · exact h
      · have := ht.loops_lt t (hl ▸ Assoc.mem_keys hm)
        omega
    have hnone : Unpulled [.registered t q.row.epoch] q.row.epoch :=
      fun t o res ms h => by simp at h
    refine ⟨?_, ?_, ?_⟩
    · intro t' sub off ho' hm
      cases ho'
      cases hmem _ hm
    · intro t' sub ho' hm
      cases ho'
      cases hmem _ hm
    · intro hc
      exact (hi.missing hc).mono hnone
  | tokens | lock | finish | shutdown => exact hi.frame unpulled_nil (.inr rfl) rfl rfl hsame
  | place off hc =>
    have hnew := (hi.missing hc).mono
      (fun t o res ms h => by simp at h : Unpulled [.placed q.row.epoch off] q.row.epoch)
    refine ⟨?_, fun _ _ _ _ => hnew, fun hnone => nomatch hnone⟩
    intro t sub off' ho hm
    have hsome := hi.pulling t sub off' ho hm
    cases hc.symm.trans hsome
  | remove => exact hi.frame (fun g t o res ms h => by simp at h) (.inr rfl) rfl rfl hsame
  | sweep off ho =>
    obtain ⟨i, p, hr⟩ := q.row.removeExpiredEntryIfStillHead_writes off
    rw [hr]
    refine hi.frame ?_ (.inr rfl) rfl rfl hsame
    intro g t o res ms h
    split at h <;> simp at h
  | take hh htb =>
    obtain ⟨dq, rest, _, _, _, _, rfl⟩ := Row.takeBatch_eq htb
    exact hi.frame unpulled_nil (.inr rfl) rfl rfl hsame
  | held hh h =>
    obtain ⟨p, c, a, i, hr⟩ := h.writes
    rw [hr]
    exact hi.frame (fun g t o res ms hm => h.not_pulled _ _ _ _ _ hm) (.inr rfl) rfl rfl hsame
  | clearOwners hst => exact hi.frame unpulled_nil (.inl rfl) rfl rfl hsame

theorem cursorInv_run (h : QRun m Queue.init tr q) (hown : ∀ e ∈ tr, OwnCursor e) :
    CursorInv tr q :=
  Run.invariant_of (I := CursorInv) cursorInv_init
    (fun _ _ _ _ hr hev hi hs => cursorInv_step (tokens_run hr) (unowned_run hr) hi
      (fun e he => hev e (mem_append_right _ he)) hs) h hown

theorem QStep.pulled_loop (hs : QStep m q evs q') (h : .pulled t g req res ms ∈ evs) :
    q.row.queueOwners = some t ∧ g = q.row.epoch ∧ (∃ sub, (t, .pull sub req) ∈ q.loops) ∧
      ∃ rest, evs = .pulled t g req res ms :: rest := by
  cases hs.consume with
  | pulled mq res' msgs hl ho hr hh =>
    rcases mem_cons.mp h with h | h
    · cases h
      exact ⟨ho, rfl, ⟨_, hl⟩, _, rfl⟩
    · split at h <;> simp at h
  | quiet hev => exact absurd (hev _ h) (by simp [QEvent.consumeSide])
  | retired hev => exact absurd (mem_singleton.mp h ▸ hev) (by simp [QEvent.consumeSide])
  | swept off ho => split at h <;> simp at h
  | held hh hr => exact absurd h (hr.not_pulled _ _ _ _ _)
  | _ => simp at h

/-! ## 2. Sound states -/

/-- The loop has passed the top of its round, where a stop signal is seen. -/
def LoopPc.pastTop : LoopPc → Bool
  | .stamp | .sub | .gate _ | .flow _ | .cursor _ | .resolve _ | .pull _ _ => true
  | _ => false

/-- The owner may still pull, and its last answer was not OFFSET_ILLEGAL. -/
def Active (q : Queue) (t : Nat) : Prop :=
  q.row.queueOwners = some t ∧ (t, .illegal) ∉ q.loops ∧
    (q.started = true ∨ ∃ pc, (t, pc) ∈ q.loops ∧ pc.pastTop = true)

/-- **The states in which the cursor can be relied on.** -/
def Sound (q : Queue) : Prop :=
  (q.started = true ∧ q.row.queueOwners = none) ∨ ∃ t, Active q t

theorem sound_of_pastTop (ht : Tokens tr q) (ho : q.row.queueOwners = some t)
    (hm : (t, pc) ∈ q.loops) (hpc : pc.pastTop = true) : Sound q := by
  refine .inr ⟨t, ho, ?_, .inr ⟨pc, hm, hpc⟩⟩
  intro hill
  cases inj_on_of_nodup_map ht.nodup hill hm rfl
  cases hpc

/-- Soundness goes back over a step that leaves owner and `started` alone and whose loops past
the top, or illegal, are those of before. -/
theorem Sound.back (h : Sound q') (hs : q'.started = q.started)
    (ho : q'.row.queueOwners = q.row.queueOwners)
    (hill : ∀ t, q.row.queueOwners = some t → (t, .illegal) ∈ q.loops → (t, .illegal) ∈ q'.loops)
    (hpast : ∀ t pc, q.row.queueOwners = some t → (t, pc) ∈ q'.loops → pc.pastTop = true →
      q.started = true ∨ ∃ pc', (t, pc') ∈ q.loops ∧ pc'.pastTop = true) : Sound q := by
  rcases h with ⟨h1, h2⟩ | ⟨t, h1, h2, h3⟩
  · exact .inl ⟨hs ▸ h1, ho ▸ h2⟩
  · rw [ho] at h1
    refine .inr ⟨t, h1, fun hm => h2 (hill t h1 hm), ?_⟩
    rcases h3 with h3 | ⟨pc, hm, hpc⟩
    · exact .inl (hs ▸ h3)
    · exact hpast t pc h1 hm hpc

theorem Sound.replaced (hs : Sound { q with row := r', loops := l ++ (t, pc') :: r })
    (hl : q.loops = l ++ (t, pc) :: r) (ho : r'.queueOwners = q.row.queueOwners)
    (hill : pc ≠ .illegal) (hpast : pc'.pastTop = true → q.started = true ∨ pc.pastTop = true) :
    Sound q := by
  refine hs.back rfl ho (fun t0 _ hm => Assoc.mem_of_replace hl hm hill.symm) ?_
  intro t0 pc0 _ hm hpc
  rcases Assoc.mem_insert hm with ⟨rfl, rfl⟩ | hm
  · exact (hpast hpc).imp_right fun h => ⟨pc, by rw [hl]; simp, h⟩
  · exact .inr ⟨pc0, Assoc.mem_erase hl hm, hpc⟩

theorem LoopRule.pastTop_back {r : Row} (h : LoopRule m started t r pc evs r' pc')
    (hpc : pc'.pastTop = true) : started = true ∨ pc.pastTop = true := by
  cases h with
  | enter hs ho => exact .inl hs
  | pulled mq res msgs ho => exact .inr rfl
  | leave | restart => cases hpc
  | _ => exact .inr rfl

theorem LoopRule.not_illegal {r : Row} (h : LoopRule m started t r pc evs r' pc') :
    pc ≠ .illegal := by
  rintro rfl
  cases h with
  | leave h => rcases h with h | h <;> cases h
  | restart h => cases h

theorem LoopRule.sound_back (hl : q.loops = l ++ (t, pc) :: r)
    (h : LoopRule m q.started t q.row pc evs r' pc')
    (hs : Sound { q with row := r', loops := l ++ (t, pc') :: r }) : Sound q := by
  have hown : r'.queueOwners = q.row.queueOwners := by
    obtain ⟨_, _, _, _, _, _, hr⟩ := h.writes
    rw [hr]
  exact hs.replaced hl hown h.not_illegal h.pastTop_back

/-! ## 3. Properties of the cursor -/

/-- What makes a property `P tr g c` of a cursor `c` in generation `g` an invariant of runs whose
events meet `G`. -/
structure CursorRule (G : QEvent → Prop) (P : List QEvent → Nat → Int → Prop) : Prop where
  own : ∀ e, G e → OwnCursor e
  mono : ∀ tr evs g c, P tr g c → Unpulled evs g → P (tr ++ evs) g c
  install : ∀ tr g c e, Unpulled tr g → (e = .placed g c ∨ ∃ t o, e = .resolved t o g c) →
    P (tr ++ [e]) g c
  pull : ∀ tr evs t g req res ms, P tr g req → G (.pulled t g req res ms) →
    res.status ≠ .offsetIllegal → Unpulled evs g →
    P (tr ++ .pulled t g req res ms :: evs) g res.nextBeginOffset

/-- The cursor of a sound state has the property. -/
def CursorOk (P : List QEvent → Nat → Int → Prop) (tr : List QEvent) (q : Queue) : Prop :=
  Sound q → ∀ c, q.row.offsetTable = some c → P tr q.row.epoch c

section Rule

variable {m : Mode} {G : QEvent → Prop} {P : List QEvent → Nat → Int → Prop}
  {tr evs : List QEvent} {q q' : Queue}

variable (hR : CursorRule G P)
include hR

theorem CursorOk.frame (hok : CursorOk P tr q)
    (hev : Unpulled evs q.row.epoch) (hb : Sound q' → Sound q) (he : q'.row.epoch = q.row.epoch)
    (hc : q'.row.offsetTable = q.row.offsetTable) : CursorOk P (tr ++ evs) q' := by
  intro hs c hc'
  rw [he]
  exact hR.mono _ _ _ _ (hok (hb hs) c (hc ▸ hc')) hev

theorem LoopRule.cursorOk {t : Nat} {r' : Row} {pc pc' : LoopPc}
    {l r : List (Nat × LoopPc)} (ht : Tokens tr q) (hu : Unowned tr q) (hi : CursorInv tr q)
    (hok : CursorOk P tr q) (hev : ∀ e ∈ evs, G e) (hl : q.loops = l ++ (t, pc) :: r)
    (h : LoopRule m q.started t q.row pc evs r' pc') :
    CursorOk P (tr ++ evs) { q with row := r', loops := l ++ (t, pc') :: r } := by
  have hback := h.sound_back hl
  have hmem : (t, pc) ∈ q.loops := by rw [hl]; simp
  cases h with
  | resolved off =>
    have hw : OwnCursor (.resolved t q.row.queueOwners q.row.epoch off) :=
      hR.own _ (hev _ (mem_singleton.mpr rfl))
    intro hs c hc
    cases hc
    refine hR.install _ _ _ _ ?_ (.inr ⟨t, _, rfl⟩)
    rcases hw with hot | hno
    · exact hi.resolving t _ hot hmem
    · -- without an owner a sound state has pulled nothing yet
      rcases hback hs with ⟨hst, _⟩ | ⟨t', ho, _⟩
      · exact (hu.bare hst hno).2.2.2
      · cases hno.symm.trans ho
  | pulled mq res msgs hot =>
    rename_i sub off
    obtain ⟨mq', p, c', f, hr, _⟩ := q.row.bookPull_writes mq res msgs
    rw [hr]
    intro hs c hc
    cases hc
    by_cases hill : res.status = .offsetIllegal
    · -- the owner has just been told that the offset is illegal
      rw [if_pos hill] at hs
      rcases hs with ⟨_, hno⟩ | ⟨t', ho, hno, _⟩
      · have hno' : q.row.queueOwners = none := hno
        cases hot.symm.trans hno'
      · have ho' : q.row.queueOwners = some t' := ho
        cases hot.symm.trans ho'
        exact absurd (show (t, LoopPc.illegal) ∈ l ++ (t, .illegal) :: r by simp) hno
    · have hsound := sound_of_pastTop ht hot hmem rfl
      have hreq := hok hsound off (hi.pulling t sub off hot hmem)
      refine hR.pull _ _ _ _ _ _ _ hreq (hev _ mem_cons_self) hill ?_
      intro t' o res' ms hm
      split at hm <;> simp at hm
  | gatePassed now hf => exact hok.frame hR (fun t' o res ms hm => by simp at hm) hback rfl rfl
  | _ => exact hok.frame hR (unpulled_nil _) hback rfl rfl

theorem cursorOk_step (ht : Tokens tr q) (hu : Unowned tr q)
    (hi : CursorInv tr q) (hok : CursorOk P tr q) (hev : ∀ e ∈ evs, G e) (hs : QStep m q evs q') :
    CursorOk P (tr ++ evs) q' := by
  have hnil : Unpulled [] q.row.epoch := unpulled_nil _
  cases hs with
  | loop hl h => exact h.cursorOk hR ht hu hi hok hev hl
  | exit hl =>
    rename_i l r t
    obtain ⟨a, ha⟩ := q.row.markPullLoopExited_writes t
    rw [ha]
    refine hok.frame hR hnil ?_ rfl rfl
    intro hsound
    refine hsound.back rfl rfl ?_ ?_
    · intro t0 _ hm
      rcases Assoc.mem_insert (hl ▸ hm) with ⟨_, h⟩ | hm
      · cases h
      · exact hm
    · exact fun t0 pc0 _ hm hpast => .inr ⟨pc0, Assoc.mem_erase hl hm, hpast⟩
  | illegal | retire => intro _ c hc; cases hc
  | resume hl | spawn hl =>
    refine hok.frame hR hnil (fun hs => hs.replaced hl rfl (by simp) ?_) rfl rfl
    intro h
    cases h
  | abort hst hl =>
    refine hok.frame hR hnil ?_ rfl rfl
    rintro (⟨h1, _⟩ | ⟨t, h1, _, h3⟩)
    · have h1' : q.started = true := h1
      cases hst.symm.trans h1'
    · rcases h3 with h3 | ⟨pc, hm, hpc⟩
      · have h3' : q.started = true := h3
        cases hst.symm.trans h3'
      · exact sound_of_pastTop ht h1 (hl.subset hm) hpc
  | register mq now ho hl htk hn =>
    rename_i l r t n
    refine hok.frame hR (fun t' o res ms hm => by simp at hm) ?_ rfl rfl
    rintro (⟨_, h2⟩ | ⟨t', h1, _, h3⟩)
    · cases h2
    · cases h1
      rcases h3 with h3 | ⟨pc, hm, hpc⟩
      · exact .inl ⟨h3, ho⟩
      · -- the new loop stands before its top
        rcases Assoc.mem_insert hm with ⟨_, rfl⟩ | hm
        · cases hpc
        · have := ht.loops_lt t (hl ▸ Assoc.mem_keys hm)
          omega
  | tokens | lock | finish => exact hok.frame hR hnil id rfl rfl
  | place off hc =>
    intro _ c hc'
    cases hc'
    exact hR.install _ _ _ _ (hi.missing hc) (.inl rfl)
  | remove => exact hok.frame hR (fun t' o res ms hm => by simp at hm) id rfl rfl
  | sweep off ho =>
    obtain ⟨i, p, hr⟩ := q.row.removeExpiredEntryIfStillHead_writes off
    rw [hr]
    refine hok.frame hR ?_ id rfl rfl
    intro t o res ms hm
    split at hm <;> simp at hm
  | take hh htb =>
    obtain ⟨dq, rest, _, _, _, _, rfl⟩ := Row.takeBatch_eq htb
    exact hok.frame hR hnil id rfl rfl
  | held hh h =>
    obtain ⟨p, c, a, i, hr⟩ := h.writes
    rw [hr]
    exact hok.frame hR (fun t o res ms hm => h.not_pulled _ _ _ _ _ hm) id rfl rfl
  | shutdown =>
    refine hok.frame hR hnil ?_ rfl rfl
    rintro (⟨h1, _⟩ | ⟨t, h1, _, h3⟩)
    · cases h1
    · rcases h3 with h3 | ⟨pc, hm, hpc⟩
      · cases h3
      · exact sound_of_pastTop ht h1 hm hpc
  | clearOwners hst =>
    rintro (⟨h1, _⟩ | ⟨t, h1, _⟩)
    · have h1' : q.started = true := h1
      cases hst.symm.trans h1'
    · cases h1

/-- **A property of cursors along every run that meets its conditions.** -/
theorem cursorOk_run (h : QRun m Queue.init tr q) (hev : ∀ e ∈ tr, G e) : CursorOk P tr q := by
  have h0 : CursorOk P [] Queue.init := fun _ _ hc => nomatch hc
  refine Run.invariant_of h0 ?_ h hev
  intro tr q evs q' hr hG hi hs
  have hown : ∀ e ∈ tr, OwnCursor e := fun e he => hR.own e (hG e (mem_append_left _ he))
  exact cursorOk_step hR (tokens_run hr) (unowned_run hr) (cursorInv_run hr hown) hi
    (fun e he => hG e (mem_append_right _ he)) hs

theorem CursorRule.pulled_at (h : QRun m Queue.init tr q)
    (hev : ∀ e ∈ tr, G e) (hs : QStep m q evs q') {t g : Nat} {req : Int} {res : PullResult}
    {ms : List MessageExt} (he : .pulled t g req res ms ∈ evs) : P tr g req := by
  obtain ⟨ho, rfl, ⟨sub, hl⟩, _⟩ := hs.pulled_loop he
  have hi := cursorInv_run h fun e he => hR.own e (hev e he)
  have hsound := sound_of_pastTop (tokens_run h) ho hl rfl
  exact cursorOk_run hR h hev hsound req (hi.pulling t sub req ho hl)

end Rule

end RocketMQ

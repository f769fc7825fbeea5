import LightStack.Conn.Ownership

/-!
# Whom the stack knows
-/

namespace LightStack.Conn

open Lib List

def Attended (s : State) (c : Nat) : Prop :=
  c ∈ releases s ∨ c ∈ owned s ∧
    ((s.locals c).isInit = true ∨ ∃ main i, s.call = .waitOpen main c i)

def KernelAttended (s : State) : Prop := ∀ c, s.kernel c = true → Attended s c

variable {k : Nat} {cmd : Command}

namespace KernelAttended

variable {s t : State} (h : Partition s) (hkernel : KernelAttended s)

include h hkernel

theorem acquire (hidle : s.call = .idle) {c : Nat} {l : Local} {new : List (Nat × Command)}
    (hacq : Partition.Acquires s t c l new) : KernelAttended t := by
  intro c' hc'
  rw [hacq.same.kernel] at hc'
  rw [Attended, hacq.releases_eq, hacq.owned_eq h hidle, hacq.call]
  refine (hkernel c' hc').imp_right fun ⟨howned, hstate⟩ => ⟨by simp [howned], ?_⟩
  rwa [hacq.same.locals c' (hacq.ne_of_owned h howned)]

omit h in
theorem binds {extra : List Nat} {new : List (Nat × Command)}
    (hbinds : Partition.Binds s t extra new) : KernelAttended t := by
  intro c hc
  rw [hbinds.kernel] at hc
  rw [Attended, hbinds.releases_eq]
  refine (hkernel c hc).imp_right fun ⟨howned, hstate⟩ => ?_
  refine ⟨hbinds.owned.mem_iff.mpr (mem_append_left _ howned), .inl ?_⟩
  rcases hstate with hinit | ⟨main, i, hcall⟩
  · rcases (hbinds.kept c howned).2 with hsame | ⟨hinit', -⟩
    · rwa [hsame]
    · rw [hinit] at hinit'
      cases hinit'
  · exact hbinds.opened main c i hcall

theorem close (hidle : s.call = .idle) {m : Nat} (hm : m ∈ s.descriptors)
    (hcloses : Partition.Closes s t m) : KernelAttended t := by
  intro c hc
  rw [hcloses.same.kernel] at hc
  rw [Attended, hcloses.releases_eq, hcloses.owned_eq h hidle hm]
  rcases hkernel c hc with hrel | ⟨howned, hstate⟩
  · exact .inl (mem_append_left _ hrel)
  · have hinit : (s.locals c).isInit = true := by
      rcases hstate with hinit | ⟨main, i, hcall⟩
      · exact hinit
      · rw [hidle] at hcall
        cases hcall
    by_cases hmem : c ∈ bundle s m
    · exact .inl (mem_append_right _ (mem_filter.mpr ⟨hmem, hinit⟩))
    · have hperm := Partition.owned_perm_erase hidle hm
      refine .inr ⟨(mem_append.mp (hperm.mem_iff.mp howned)).resolve_left hmem, .inl ?_⟩
      rwa [hcloses.same.locals c hmem]

omit h in
theorem post (hrelease : release cmd = none) : KernelAttended (Conn.post s k cmd) := by
  intro c hc
  have howned : owned (Conn.post s k cmd) = owned s := owned_congr rfl rfl rfl rfl
  have hreleases : releases (Conn.post s k cmd) = releases s := by
    rw [releases_append rfl]
    simp [hrelease]
  rw [Attended, howned, hreleases]
  exact hkernel c hc

omit h in
theorem processes {rest : List (Nat × Command)}
    (htake : Mailbox.take k s.pending = some (cmd, rest)) (happ : SameApp s t)
    (hpending : t.pending = rest)
    (hstill : ∀ c, t.kernel c = true → release cmd ≠ some c ∧ (s.kernel c = true ∨ Attended s c)) :
    KernelAttended t := by
  intro c hc
  obtain ⟨hne, hc⟩ := hstill c hc
  have hattended : Attended s c := hc.elim (hkernel c) id
  rw [Attended, happ.owned, happ.locals, happ.call]
  refine hattended.imp_left fun hrel => ?_
  rw [(releases_of_take htake).mem_iff, mem_append] at hrel
  rcases hrel with hrel | hrel
  · exact absurd (Option.mem_toList.mp hrel) hne
  · rwa [releases, hpending]

theorem stack {success : Bool} {rest : List (Nat × Command)}
    (htake : Mailbox.take k s.pending = some (cmd, rest)) :
    KernelAttended (processCommand { s with pending := rest } k success cmd) := by
  have hsame : release cmd = none → KernelAttended { s with pending := rest } := by
    intro hrelease
    refine processes hkernel htake ⟨rfl, rfl, rfl, rfl, rfl, rfl, rfl⟩ rfl fun c hc => ?_
    exact ⟨by simp [hrelease], .inl hc⟩
  -- the connection of an answered `OPEN` command is the one that is waited for
  cases cmd with
  | openSocket c =>
    cases success with
    | false => exact hsame rfl
    | true =>
      refine processes hkernel htake ⟨rfl, rfl, rfl, rfl, rfl, rfl, rfl⟩ rfl
        fun c' hc' => ⟨by simp [release], ?_⟩
      by_cases hcc : c' = c
      · subst hcc
        refine .inr (.inr ?_)
        have hawaits := h.awaits
        have hquestions := (h.questions_of_take htake rfl).1
        unfold Awaits at hawaits
        rw [hquestions] at hawaits
        split at hawaits
        · cases hawaits
        · rename_i main current i hcall
          rcases hawaits.2 with ⟨-, heq⟩ | ⟨-, hnil, -⟩
          · simp only [List.cons.injEq, Prod.mk.injEq, Command.openSocket.injEq] at heq
            obtain ⟨⟨-, rfl⟩, -⟩ := heq
            exact ⟨h.current_mem_owned hcall, .inr ⟨main, i, hcall⟩⟩
          · cases hnil
        · rcases hawaits with ⟨-, c, heq⟩ | ⟨-, hnil⟩
          · simp at heq
          · cases hnil
      · exact .inl (by simpa [processCommand, hcc] using hc')
  | bind | decline => exact hsame rfl
  | close c =>
    obtain ⟨hknown, -⟩ := h.stack_close htake
    have hnext : processCommand { s with pending := rest } k success (.close c) =
        lightFreeSocket { s with pending := rest } c := by
      simp [processCommand, hknown]
    rw [hnext]
    refine processes hkernel htake ⟨rfl, rfl, rfl, rfl, rfl, rfl, rfl⟩ rfl fun c' hc' => ?_
    have hcc : c' ≠ c := by
      rintro rfl
      simp [lightFreeSocket] at hc'
    exact ⟨by simpa [release] using Ne.symm hcc, .inl (by simpa [lightFreeSocket, hcc] using hc')⟩
  | shutdown c how =>
    obtain ⟨hhow, -⟩ := h.stack_shutdown htake
    have hnext : processCommand { s with pending := rest } k success (.shutdown c how) =
        { s with pending := rest } := by
      simp [processCommand, hhow]
    rw [hnext]
    exact hsame (by simp [release, hhow])
  | setSocketRing c =>
    refine processes hkernel htake ⟨rfl, rfl, rfl, rfl, rfl, rfl, rfl⟩ rfl
      fun c' hc' => ⟨by simp [release], ?_⟩
    by_cases hcc : c' = c
    · subst hcc
      have hlife : life s c' ≠ [] := by
        refine ne_nil_of_mem (a := (k, .setSocketRing c')) ?_
        exact mem_filter.mpr ⟨Mailbox.mem_of_take htake, by simp [about]⟩
      exact .inr ((h.quiet c' hlife).imp_right fun hown => ⟨hown.1, .inl hown.2⟩)
    · exact .inl (by simpa [processCommand, hcc] using hc')

theorem effect {a : Action} (heffect : Partition.Effect s a t) : KernelAttended t := by
  cases heffect with
  | opens hidle hacq _ | accepts hidle hacq => exact acquire h hkernel hidle hacq
  | binds hbinds _ | resumes hbinds _ => exact binds hkernel hbinds
  | connects => exact hkernel
  | @declines m k posted _ _ =>
    cases posted with
    | false => exact hkernel
    | true => exact post hkernel rfl
  | @shuts m how posted _ hhow =>
    cases posted with
    | false => exact hkernel
    | true => exact post hkernel (by simp [release, hhow.resolve_right (by simp)])
  | closes hidle hm hcloses => exact close h hkernel hidle hm hcloses
  | processes htake _ => exact stack h hkernel htake

end KernelAttended

end LightStack.Conn

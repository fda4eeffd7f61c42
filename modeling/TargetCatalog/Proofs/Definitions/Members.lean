import TargetCatalog.Proofs.Machine.Padding
import TargetCatalog.Proofs.Registry.Builder

/-!
# Spellings of a member list

The members of a machine may be written as words in one string, as a list of entries, or as a list
of entries with white space in them. The machines that are added, or the error for which they are
refused, do not depend on the spelling.
-/

namespace TargetCatalog

open Text

theorem words_of_layout {words : List String} {s : String}
    (hWords : ∀ word ∈ words, IsWord word.toList) (h : Layout (words.map String.toList) s.toList) :
    Text.words s = words := by
  rw [Text.words, wordsChars_of_layout (List.forall_mem_map.mpr hWords) h, List.map_map]
  simp

/-- A declaration has the same outcome for all entries with the same pieces, whether it is accepted
or refused. -/
theorem RegistryBuilder.step_machine_of_samePieces {as bs : List String}
    (h : List.Forall₂ SamePieces as bs) (name : String) (b : RegistryBuilder) :
    b.step (.machine name as) = b.step (.machine name bs) := by
  have hRegister : MachineCatalogue.register b.archs name as =
      MachineCatalogue.register b.archs name bs := by
    rw [MachineCatalogue.register, MachineCatalogue.register, SamePieces.expand_eq h]
  rw [step, step, run_attempt_machine, run_attempt_machine, hRegister]

namespace MemberList

/-- Entries without white space may be laid out as words in one text, or padded one by one, and the
outcome of a declaration stays the same. Any text stands for the words in it, and these make up all
of it but its white space. -/
theorem spellings_interchangeable :
    (∀ (es : List String) (w : String) (ps : List String), (∀ e ∈ es, IsWord e.toList) →
      Layout (es.map String.toList) w.toList →
      List.Forall₂ (fun e p => PadsTo e.toList p.toList) es ps →
      (words w).entries = es ∧ ∀ (name : String) (b : RegistryBuilder),
        b.step (.machine name (words w).entries) = b.step (.machine name es) ∧
        b.step (.machine name ps) = b.step (.machine name es)) ∧
    ∀ w : String, (∀ e ∈ (words w).entries, IsWord e.toList) ∧
      String.join (words w).entries = .ofList (w.toList.filter fun c => !isSpace c) := by
  refine ⟨fun es w ps hWords hLayout hPads => ?_, fun w => ⟨?_, ?_⟩⟩
  · have hEntries : (words w).entries = es := words_of_layout hWords hLayout
    have hPieces : List.Forall₂ SamePieces ps es :=
      hPads.flip.imp fun _ _ h => slotPieces_of_padsTo h
    refine ⟨hEntries, fun name b => ⟨?_, ?_⟩⟩
    · rw [hEntries]
    · exact RegistryBuilder.step_machine_of_samePieces hPieces name b
  · intro e he
    obtain ⟨cs, hcs, rfl⟩ := List.mem_map.mp he
    rw [String.toList_ofList]
    exact isWord_of_mem_wordsChars hcs
  · apply String.toList_inj.mp
    rw [String.toList_ofList, ← flatten_wordsChars, String.toList_join, entries, Text.words]
    simp [List.flatMap_map]

theorem spellings_interchangeable_of_optional_slot :
    let es := ["generic", "sse|"]
    let w := "\tgeneric \u3000sse|\n"
    let ps := ["generic\u2003", " sse |\u00a0 "]
    let b := (RegistryBuilder.empty.run [.arch (.named "generic"), .arch (.named "sse")]).2
    (∀ e ∈ es, IsWord e.toList) ∧ Layout (es.map String.toList) w.toList ∧
      List.Forall₂ (fun e p => PadsTo e.toList p.toList) es ps ∧ (words w).entries = es ∧
      b.step (.machine "m" (words w).entries) = b.step (.machine "m" es) ∧
      b.step (.machine "m" ps) = b.step (.machine "m" es) ∧
      String.join (words w).entries = "genericsse|" := by
  intro es w ps b
  have hWords : ∀ e ∈ es, IsWord e.toList := by decide +kernel
  have hBlank : ∀ cs ∈ [[], ['\t'], [' '], ['\n'], [' ', '\u3000'], ['\u2003'], ['\u00a0', ' ']],
      IsBlank cs := by
    decide +kernel
  have hLayout : Layout (es.map String.toList) w.toList := by
    have hText : w.toList = ['\t'] ++ "generic".toList ++ [' ', '\u3000'] ++
        ([] ++ "sse|".toList ++ ['\n']) := by
      decide +kernel
    rw [hText]
    exact .cons (hBlank _ (by simp)) (hBlank _ (by simp)) (by simp)
      (.single (hBlank _ (by simp)) (hBlank _ (by simp)))
  have hGeneric : PadsTo "generic".toList "generic\u2003".toList := by
    have hText : "generic\u2003".toList = [] ++ "generic".toList ++ ['\u2003'] := by decide +kernel
    rw [hText]
    exact .last (hBlank _ (by simp)) (hBlank _ (by simp)) (by decide)
  have hSse : PadsTo "sse|".toList " sse |\u00a0 ".toList := by
    have hEntry : "sse|".toList = "sse".toList ++ choiceDelimiter :: [] := by decide +kernel
    have hText : " sse |\u00a0 ".toList = [' '] ++ "sse".toList ++ [' '] ++
        choiceDelimiter :: ([] ++ [] ++ ['\u00a0', ' ']) := by
      decide +kernel
    rw [hEntry, hText]
    exact .bar (hBlank _ (by simp)) (hBlank _ (by simp)) (by decide)
      (.last (hBlank _ (by simp)) (hBlank _ (by simp)) (by simp))
  have hPads : List.Forall₂ (fun e p => PadsTo e.toList p.toList) es ps :=
    .cons hGeneric (.cons hSse .nil)
  have hJoined : String.ofList (w.toList.filter fun c => !isSpace c) = "genericsse|" := by
    decide +kernel
  obtain ⟨hSpellings, hEntries⟩ := spellings_interchangeable
  obtain ⟨hSame, hOutcome⟩ := hSpellings es w ps hWords hLayout hPads
  obtain ⟨hLaidOut, hPadded⟩ := hOutcome "m" b
  exact ⟨hWords, hLayout, hPads, hSame, hLaidOut, hPadded, (hEntries w).2.trans hJoined⟩

end MemberList

end TargetCatalog

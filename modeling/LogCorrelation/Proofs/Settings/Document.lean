import LogCorrelation.Settings.Document
import Mathlib.Data.List.Nodup

/-!
# Proofs.Settings.Document — the value of each setting in a document

A document is taken over key by key, and none of its keys occurs twice.  So a setting has the value that its key has in
the document, wherever the key stands in it, and its default if the key is not there.

* `puts_of_put?_eq_some`: what taking over one key changes.
* `taken_of_foldlM_put?`: where one setting comes from, behind a whole document.
* `ofDocument?_describes`: all six of them.
-/

namespace LogCorrelation.Toml

/-- The text that a value is. -/
def Value.text? : Value → Option String
  | .text s => some s
  | _ => none

/-- The natural number that a value is. -/
def Value.count? : Value → Option Nat
  | .integer n => if 0 ≤ n then some n.toNat else none
  | _ => none

/-- The truth value that a value is. -/
def Value.truth? : Value → Option Bool
  | .truth b => some b
  | _ => none

theorem nodup_keys_of_document? {text : String} {d : Document} (h : document? text = some d) : (d.map (·.1)).Nodup := by
  unfold document? at h
  split at h
  · split at h
    · next hnodup => exact Option.some.inj h ▸ hnodup
    · exact absurd h (by simp)
  · exact absurd h (by simp)

end LogCorrelation.Toml

namespace LogCorrelation.Settings

open Toml (Value Document)

/-! ### One key -/

/-- Each key with the setting that it is for. -/
inductive Puts (s : Settings) : String → Value → Settings → Prop
  | commandLog (path : String) : Puts s "commands_path" (.text path) { s with commandLog := path }
  | ioLog (path : String) : Puts s "io_events_path" (.text path) { s with ioLog := path }
  | batchSize (n : Int) (hn : 0 ≤ n) : Puts s "batch_size" (.integer n) { s with batchSize := n.toNat }
  | evenLabel (label : String) : Puts s "even_label" (.text label) { s with evenLabel := label }
  | oddLabel (label : String) : Puts s "odd_label" (.text label) { s with oddLabel := label }
  | fillFirst (b : Bool) : Puts s "correct_first_latency" (.truth b) { s with fillFirst := b }

theorem puts_of_put?_eq_some {s s' : Settings} {p : String × Value} (h : s.put? p = some s') : Puts s p.1 p.2 s' := by
  unfold put? at h
  split at h
  · obtain rfl := Option.some.inj h
    exact .commandLog _
  · obtain rfl := Option.some.inj h
    exact .ioLog _
  · next n =>
    by_cases hn : 0 ≤ n
    · rw [if_pos hn] at h
      obtain rfl := Option.some.inj h
      exact .batchSize n hn
    · rw [if_neg hn] at h
      exact absurd h (by simp)
  · obtain rfl := Option.some.inj h
    exact .evenLabel _
  · obtain rfl := Option.some.inj h
    exact .oddLabel _
  · obtain rfl := Option.some.inj h
    exact .fillFirst _
  · exact absurd h (by simp)

/-! ### A whole document -/

/-- Where the value of a setting comes from: from its key in a document, or from before if the key is not there. -/
inductive Taken {β : Type} (d : Document) (key : String) (value? : Value → Option β) (before : β) : β → Prop
  | document {v : Value} {b : β} (hkey : d.lookup key = some v) (hv : value? v = some b) : Taken d key value? before b
  | before (hkey : d.lookup key = none) : Taken d key value? before before

theorem lookup_eq_none_of_not_mem {d : Document} {key : String} (h : key ∉ d.map (·.1)) : d.lookup key = none := by
  refine List.lookup_eq_none_iff.mpr fun p hp => ?_
  have hne : key ≠ p.1 := fun hkey => h (List.mem_map.mpr ⟨p, hp, hkey.symm⟩)
  simpa using hne

/-- Behind a document a setting comes from its own key, whatever the others are. -/
theorem taken_of_foldlM_put? {β : Type} (field : Settings → β) {value? : Value → Option β} {own : String}
    (hfield : ∀ {s key v s'}, Puts s key v s' →
      if key = own then value? v = some (field s') else field s' = field s)
    {d : Document} (hkeys : (d.map (·.1)).Nodup) {s s' : Settings} (h : d.foldlM put? s = some s') :
    Taken d own value? (field s) (field s') := by
  induction d generalizing s with
  | nil =>
    obtain rfl := Option.some.inj h
    exact .before rfl
  | cons p d ih =>
    obtain ⟨key, v⟩ := p
    obtain ⟨hnew, hkeys⟩ := List.nodup_cons.mp hkeys
    obtain ⟨next, hput, hrest⟩ := Option.bind_eq_some_iff.mp h
    have hstep := hfield (puts_of_put?_eq_some hput)
    have htaken := ih hkeys hrest
    by_cases hkey : key = own
    · -- the key stands nowhere else, so the rest of the document leaves the setting as it is
      subst hkey
      rw [if_pos rfl] at hstep
      have hnone : d.lookup key = none := lookup_eq_none_of_not_mem hnew
      generalize field s' = b at htaken ⊢
      cases htaken with
      | document hlater _ => exact absurd (hnone.symm.trans hlater) (by simp)
      | before _ => exact .document List.lookup_cons_self hstep
    · rw [if_neg hkey] at hstep
      have hlookup : List.lookup own ((key, v) :: d) = d.lookup own := by
        have hbeq : (own == key) = false := by simpa using Ne.symm hkey
        rw [List.lookup_cons, hbeq]
      rw [hstep] at htaken
      generalize field s' = b at htaken ⊢
      cases htaken with
      | document hlater hv => exact .document (hlookup.trans hlater) hv
      | before hlater => exact .before (hlookup.trans hlater)

/-- Settings each of which comes from its key in a document, or has its default. -/
structure Describes (d : Document) (s : Settings) : Prop where
  commandLog : Taken d "commands_path" Value.text? "bench/timestamps.txt" s.commandLog
  ioLog : Taken d "io_events_path" Value.text? "bench/io_timestamps.txt" s.ioLog
  batchSize : Taken d "batch_size" Value.count? 10000 s.batchSize
  evenLabel : Taken d "even_label" Value.text? "PUT" s.evenLabel
  oddLabel : Taken d "odd_label" Value.text? "GET" s.oddLabel
  fillFirst : Taken d "correct_first_latency" Value.truth? true s.fillFirst

/-- **The settings that a document describes** are those of its keys, and the defaults. -/
theorem ofDocument?_describes {d : Document} (hkeys : (d.map (·.1)).Nodup) {s : Settings} (h : ofDocument? d = some s) :
    Describes d s where
  commandLog := taken_of_foldlM_put? (·.commandLog) (fun hputs => by cases hputs <;> simp [Value.text?]) hkeys h
  ioLog := taken_of_foldlM_put? (·.ioLog) (fun hputs => by cases hputs <;> simp [Value.text?]) hkeys h
  batchSize := taken_of_foldlM_put? (·.batchSize) (fun hputs => by cases hputs <;> simp [Value.count?, *]) hkeys h
  evenLabel := taken_of_foldlM_put? (·.evenLabel) (fun hputs => by cases hputs <;> simp [Value.text?]) hkeys h
  oddLabel := taken_of_foldlM_put? (·.oddLabel) (fun hputs => by cases hputs <;> simp [Value.text?]) hkeys h
  fillFirst := taken_of_foldlM_put? (·.fillFirst) (fun hputs => by cases hputs <;> simp [Value.truth?]) hkeys h

end LogCorrelation.Settings

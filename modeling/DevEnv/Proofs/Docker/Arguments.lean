import DevEnv.Docker.Arguments
import DevEnv.Proofs.Text.Record

/-! Directories on a command line. Each mount is the value of one option, which is read as a record. The fields of the
record are those of the mount exactly if neither path has a character with a meaning there. -/
namespace DevEnv.Docker

/-- The values of an option among arguments in which every option is followed by its value. -/
def valuesOf (flag : String) : List String → List String
  | option :: value :: rest => if option = flag then value :: valuesOf flag rest else valuesOf flag rest
  | _ => []

theorem valuesOf_options (flag option : String) (values rest : List String) :
    valuesOf flag (options option values ++ rest) =
      (if option = flag then values else []) ++ valuesOf flag rest := by
  induction values with
  | nil => simp [options]
  | cons value values ih =>
    change valuesOf flag (option :: value :: (options option values ++ rest)) = _
    rw [valuesOf, ih]
    split <;> rfl

/-- The fields that say what a mount is. -/
def mountFields (m : Container.Mount) : List String :=
  ["type=bind", "source=" ++ m.source, "target=" ++ m.target] ++ if m.readOnly then ["readonly"] else []

theorem join_mountFields (m : Container.Mount) : Text.join ',' (mountFields m) = mount m := by
  unfold mountFields mount
  cases m.readOnly <;> simp [Text.join, Text.joinChars, String.ext_iff, toString]

/-- A path is plain if none of its characters has a meaning in a record. -/
def Plain (path : String) : Prop := ',' ∉ path.toList ∧ '"' ∉ path.toList

theorem mountFields_plain_iff (m : Container.Mount) :
    (∀ f ∈ mountFields m, Text.Record.isSpecial f.toList = false) ↔ Plain m.source ∧ Plain m.target := by
  unfold mountFields Plain
  cases m.readOnly <;> simp [Text.Record.isSpecial]

theorem mountFields_unquoted (m : Container.Mount) : ∀ f ∈ mountFields m, Text.Record.Unquoted f.toList := by
  unfold mountFields Text.Record.Unquoted
  cases m.readOnly <;> simp

theorem valuesOf_createArguments (s : Container.Spec) :
    valuesOf "--mount" (createArguments s).tail = s.mounts.map mount := by
  simp only [createArguments, List.cons_append, List.nil_append, List.tail_cons, List.append_assoc]
  rw [valuesOf, if_neg (by decide)]
  simp only [valuesOf_options]
  simp [valuesOf]

theorem split_mount_iff (m : Container.Mount) :
    Text.Record.split (mount m) = .ok (mountFields m) ↔ Plain m.source ∧ Plain m.target := by
  have hlength : 1 < (mountFields m).length := by simp [mountFields]
  have hempty : mountFields m ≠ [""] := by
    intro he
    simp [he] at hlength
  rw [← join_mountFields, Text.Record.split_join_iff (List.ne_nil_of_length_pos (by omega)) hempty
    (mountFields_unquoted m), mountFields_plain_iff]

theorem quote_notMem_mount {m : Container.Mount} (hs : '"' ∉ m.source.toList) (ht : '"' ∉ m.target.toList) :
    '"' ∉ (mount m).toList := by
  have hend : '"' ∉ (if m.readOnly then ",readonly" else "").toList := by
    cases m.readOnly <;> decide
  unfold mount
  simp only [String.toList_append, List.mem_append, not_or]
  exact ⟨⟨⟨⟨by decide, hs⟩, by decide⟩, ht⟩, hend⟩

theorem mount_ne_empty (m : Container.Mount) : mount m ≠ "" := by
  unfold mount
  simp only [ne_eq, String.append_eq_empty_iff, not_and]
  intro h
  exact absurd h.1.1.1 (by decide)

theorem split_mount_of_no_quote {m : Container.Mount} (hs : '"' ∉ m.source.toList) (ht : '"' ∉ m.target.toList) :
    Text.Record.split (mount m) = .ok (Text.pieces ',' (mount m)) :=
  Text.Record.split_of_no_quote (mount_ne_empty m) (quote_notMem_mount hs ht)

/-- A command line has one mount option for each mount, in order, and each is a record with the fields of its mount
exactly if the paths are plain. A path without quotes that is not plain is cut at its commas. -/
theorem mounts_createArguments (s : Container.Spec) :
    valuesOf "--mount" (createArguments s).tail = s.mounts.map mount ∧
      ∀ m ∈ s.mounts,
        (Text.Record.split (mount m) = .ok (mountFields m) ↔ Plain m.source ∧ Plain m.target) ∧
        ('"' ∉ m.source.toList → '"' ∉ m.target.toList →
          Text.Record.split (mount m) = .ok (Text.pieces ',' (mount m))) :=
  ⟨valuesOf_createArguments s, fun m _ => ⟨split_mount_iff m, split_mount_of_no_quote⟩⟩

/-- Behind the comma of a source begins a field that no mount has. -/
theorem mount_cut_at_comma :
    let s : Container.Spec :=
      { name := "mnist", image := "mnist:dev", mounts := [⟨"/work/a,b", "/home/envd/b", false⟩] }
    (valuesOf "--mount" (createArguments s).tail).map Text.Record.split =
        [.ok ["type=bind", "source=/work/a", "b", "target=/home/envd/b"]] ∧
      ¬ ∀ m ∈ s.mounts, Text.Record.split (mount m) = .ok (mountFields m) := by
  refine ⟨rfl, fun h => ?_⟩
  have hplain : Plain "/work/a,b" ∧ Plain "/home/envd/b" := (split_mount_iff _).1 (h _ List.mem_cons_self)
  exact hplain.1.1 (by decide)

/-- A target with a comma passes for a directory that is only read. -/
example : mount ⟨"/data", "/mnt,readonly", false⟩ = mount ⟨"/data", "/mnt", true⟩ := by decide

end DevEnv.Docker

import Reactions.Node.Run
import Reactions.Proofs.Basic
import Reactions.Proofs.Groth16.CacheRoundTrip

/-!
# Keys from files fit the circuit

Whatever a key file holds, a key that is loaded from it fits: it is bound to the version that it was
loaded for, it has one input point for every public input and one more, and all its points belong to
their groups (`VerificationKey.Fits`). Documents and binary files are read by code of their own, so
each has its own argument, `fits_of_ofDocument` and `fits_of_read`; they meet in
`KeyFile.fits_of_key`.

Since keys that fit are read back from what is written of them, a key goes through a conversion
unchanged (`conversion_keeps_key`).
-/

namespace Reactions

/-- A key that proofs of a version can be checked with. -/
structure VerificationKey.Fits (key : VerificationKey) (version : String) : Prop where
  version : key.version = version
  ic_length : key.ic.length = VerificationKey.icCount
  valid : key.Valid

/-! ## Documents -/

namespace KeyDocument

variable {name version : String} {doc : KeyDocument} {key : VerificationKey}

/-- A point of the first group that is read from a document is valid. -/
theorem valid_of_g1 {coordinates : List String} {p : G1Point} (h : g1 name coordinates = .ok p) :
    G1.Valid p := by
  unfold g1 at h
  split at h
  · split at h
    · cases h
      trivial
    · obtain ⟨x, -, h⟩ := ok_of_bind h
      obtain ⟨y, -, h⟩ := ok_of_bind h
      exact of_checked h
  · cases h

theorem valid_of_g2 {coordinates : List (List String)} {p : G2Point}
    (h : g2 name coordinates = .ok p) : G2.Valid p := by
  unfold g2 at h
  split at h
  · split at h
    · cases h
      exact G2.valid_infinity
    · obtain ⟨x, -, h⟩ := ok_of_bind h
      obtain ⟨y, -, h⟩ := ok_of_bind h
      exact of_checked h
  · cases h

/-- A key that is made of a document fits its version. -/
theorem fits_of_toKey (h : doc.toKey version = .ok key) : key.Fits version := by
  obtain ⟨ic, hic, h⟩ := ok_of_bind h
  split at h
  · cases h
  · rename_i hcount
    obtain ⟨alpha, halpha, h⟩ := ok_of_bind h
    obtain ⟨beta, hbeta, h⟩ := ok_of_bind h
    obtain ⟨gamma, hgamma, h⟩ := ok_of_bind h
    obtain ⟨delta, hdelta, h⟩ := ok_of_bind h
    cases h
    refine ⟨rfl, not_not.1 hcount, valid_of_g1 halpha, valid_of_g2 hbeta, valid_of_g2 hgamma,
      valid_of_g2 hdelta, fun p hp => ?_⟩
    obtain ⟨i, hi, rfl⟩ := List.getElem_of_mem hp
    obtain ⟨hlength, hpoints⟩ := List.forall₂_iff_get.1 (mapM_eq_ok_iff.1 hic)
    exact valid_of_g1 (hpoints i (hlength ▸ hi) hi)

/-- Every document that is read as a key gives one that fits. -/
theorem fits_of_ofDocument {text : String}
    (h : VerificationKey.ofDocument version text = .ok key) : key.Fits version := by
  obtain ⟨doc, -, h⟩ := ok_of_bind h
  exact fits_of_toKey h

end KeyDocument

/-! ## Binary files -/

namespace KeyCache

section
variable {α β : Type} {get : Get α} {f : α → Get β} {bytes rest : Bytes} {b : β}

/-- Two readers in a row come to a value only if the first one does. -/
theorem Get.exists_of_run_bind (h : (get >>= f).run bytes = .ok (b, rest)) :
    ∃ a mid, get.run bytes = .ok (a, mid) ∧ (f a).run mid = .ok (b, rest) := by
  rw [StateT.run_bind] at h
  obtain ⟨⟨a, mid⟩, hget, h⟩ := ok_of_bind h
  exact ⟨a, mid, hget, h⟩

end

variable {bytes rest : Bytes}

/-- A condition that is passed holds. -/
theorem of_run_ensure {p : Prop} [Decidable p] {u : Unit}
    (h : (ensure p).run bytes = .ok (u, rest)) : p := by
  by_contra hp
  rw [ensure, if_neg hp] at h
  cases h

/-- A point of the first group that passes the check is valid. -/
theorem valid_of_checkedG1 {p : G1Point} (h : checkedG1.run bytes = .ok (p, rest)) :
    G1.Valid p := by
  obtain ⟨p', _, -, h⟩ := Get.exists_of_run_bind h
  obtain ⟨_, _, hensure, h⟩ := Get.exists_of_run_bind h
  cases h
  exact of_run_ensure hensure

theorem valid_of_checkedG2 {p : G2Point} (h : checkedG2.run bytes = .ok (p, rest)) :
    G2.Valid p := by
  obtain ⟨p', _, -, h⟩ := Get.exists_of_run_bind h
  obtain ⟨_, _, hensure, h⟩ := Get.exists_of_run_bind h
  cases h
  exact of_run_ensure hensure

/-- All points of the inputs are checked. -/
theorem valid_of_inputPoints {ps : List G1Point} (h : inputPoints.run bytes = .ok (ps, rest)) :
    ∀ p ∈ ps, G1.Valid p := by
  obtain ⟨count, _, -, h⟩ := Get.exists_of_run_bind h
  obtain ⟨left, _, -, h⟩ := Get.exists_of_run_bind h
  split at h
  · obtain ⟨_, _, -, h⟩ := Get.exists_of_run_bind h
    cases h
  · obtain ⟨ps', _, -, h⟩ := Get.exists_of_run_bind h
    obtain ⟨_, _, hensure, h⟩ := Get.exists_of_run_bind h
    cases h
    exact of_run_ensure hensure

/-- All points of a key that is read from a cache are valid. -/
theorem valid_of_key {k : VerificationKey} (h : key.run bytes = .ok (k, rest)) : k.Valid := by
  obtain ⟨version, _, -, h⟩ := Get.exists_of_run_bind h
  obtain ⟨alpha, _, halpha, h⟩ := Get.exists_of_run_bind h
  obtain ⟨beta, _, hbeta, h⟩ := Get.exists_of_run_bind h
  obtain ⟨gamma, _, hgamma, h⟩ := Get.exists_of_run_bind h
  obtain ⟨delta, _, hdelta, h⟩ := Get.exists_of_run_bind h
  obtain ⟨ic, _, hic, h⟩ := Get.exists_of_run_bind h
  cases h
  exact ⟨valid_of_checkedG1 halpha, valid_of_checkedG2 hbeta, valid_of_checkedG2 hgamma,
    valid_of_checkedG2 hdelta, valid_of_inputPoints hic⟩

/-- Every file that is read as a key gives one that fits. -/
theorem fits_of_read {k : VerificationKey} (h : read bytes = .ok k) : k.Fits k.version := by
  unfold read at h
  split at h
  · cases h
  · rename_i k' rest hkey
    split at h
    · rename_i hcount
      cases h
      exact ⟨rfl, hcount, valid_of_key hkey⟩
    · cases h

end KeyCache

/-! ## Loading and converting -/

namespace KeyFile

variable {version path : String} {content : FileContent} {k : VerificationKey}

/-- Whatever is in a file, a key that is loaded from it fits the version that it is loaded for. -/
theorem fits_of_key (h : key version path content = .ok k) : k.Fits version := by
  unfold key at h
  split at h
  · split at h
    · cases h
    · cases h
    · rename_i bytes
      cases hread : KeyCache.read bytes with
      | error e =>
        rw [hread] at h
        cases h
      | ok cached =>
        rw [hread] at h
        cases h
        obtain ⟨-, hcount, hvalid⟩ := KeyCache.fits_of_read hread
        exact ⟨rfl, hcount, hvalid⟩
  · split at h
    · exact KeyDocument.fits_of_ofDocument h
    · cases h

/-- A key is loaded by reading its file. -/
theorem run_load (read : ReadFile Id) (version path : String) :
    (load read version path).run = key version path (read path) := by
  rw [load, Id.run_bind, Id.run_pure]
  rfl

/-- A key that fits is loaded from its binary form, for whatever version it is asked for. -/
theorem key_write {version v : String} (hfits : k.Fits version)
    (hversion : version.utf8ByteSize < 2 ^ 64) (hpath : PathName.extension? path = some "bin") :
    key v path (.bytes (KeyCache.write k)) = .ok { k with version := v } := by
  obtain ⟨rfl, hic, hvalid⟩ := hfits
  have hread := KeyCache.read_write_append hvalid hic hversion []
  rw [List.append_nil] at hread
  rw [key, if_pos hpath, hread]
  rfl

end KeyFile

/-- The command writes the key that it has loaded, or fails. -/
theorem Node.run_convertKey (read : ReadFile Id) (clocks : Nat → Clock) (config : Config)
    (version input output : String) :
    (carryOut read clocks config (.convertKey version input output)).run =
      match (KeyFile.load read version input).run with
      | .ok key => .write output (KeyCache.write key)
      | .error _ => .failure := by
  rw [carryOut, Id.run_bind]
  cases (KeyFile.load read version input).run <;> rfl

/-- Writing a key in binary and reading it again gives back the very same key: every key that fits
the circuit and has only points of the groups, infinity included, and whatever text its version is.
Hence a document that is read as a key can be replaced by the binary file of that key. Under
whatever version `v` the file is then loaded, the points are those of the document, and likewise for
the file that the command for conversions writes.

The length of a version is written in eight bytes, hence the bound on it. No text that fits in
memory is that long. -/
theorem conversion_keeps_key :
    (∀ key : VerificationKey, key.Valid → key.ic.length = VerificationKey.icCount →
      key.version.utf8ByteSize < 2 ^ 64 → KeyCache.read (KeyCache.write key) = .ok key) ∧
    (∀ version document key, VerificationKey.ofDocument version document = .ok key →
      version.utf8ByteSize < 2 ^ 64 →
      ∀ (read : ReadFile Id) (path : String), PathName.extension? path = some "bin" →
        read path = .bytes (KeyCache.write key) →
        ∀ v, (KeyFile.load read v path).run = .ok { key with version := v }) ∧
    ∀ (before after : ReadFile Id) (clocks : Nat → Clock) (config : Config)
      (version input output path : String) (content : Bytes),
      (Node.carryOut before clocks config (.convertKey version input output)).run =
        .write path content →
      version.utf8ByteSize < 2 ^ 64 → PathName.extension? output = some "bin" →
      after path = .bytes content →
      path = output ∧ ∃ key, (KeyFile.load before version input).run = .ok key ∧
        ∀ v, (KeyFile.load after v output).run = .ok { key with version := v } := by
  refine ⟨fun key hvalid hic hversion => ?_,
    fun version document key hdocument hversion read path hpath hread v => ?_,
    fun before after clocks config version input output path content hconvert hversion houtput
      hafter => ?_⟩
  · have hread := KeyCache.read_write_append hvalid hic hversion []
    rwa [List.append_nil] at hread
  · rw [KeyFile.run_load, hread]
    exact KeyFile.key_write (KeyDocument.fits_of_ofDocument hdocument) hversion hpath
  · rw [Node.run_convertKey] at hconvert
    split at hconvert
    · rename_i key hkey
      cases hconvert
      refine ⟨rfl, key, hkey, fun v => ?_⟩
      rw [KeyFile.run_load] at hkey ⊢
      rw [hafter]
      exact KeyFile.key_write (KeyFile.fits_of_key hkey) hversion houtput
    · cases hconvert

/-- A key of generators and infinities is read back from its binary form. Converted for another
version, it is the same key under that version. -/
theorem generators_are_converted :
    let key : VerificationKey := ⟨"omega-v1", G1.generator, G2.generator, .infinity, G2.generator,
      G1.generator :: List.replicate Statement.inputCount .infinity⟩
    let before : ReadFile Id := fun _ => .bytes (KeyCache.write key)
    KeyCache.read (KeyCache.write key) = .ok key ∧
      ∃ content, (Node.carryOut before (fun _ _ => default) {}
          (.convertKey "omega-v2" "omega.bin" "omega-v2.bin")).run = .write "omega-v2.bin" content ∧
        (KeyFile.load (m := Id) (fun _ => .bytes content) "omega-v2" "omega-v2.bin").run =
          .ok { key with version := "omega-v2" } := by
  intro key before
  have hvalid : key.Valid := by
    refine ⟨G1.valid_generator, G2.valid_generator, G2.valid_infinity, G2.valid_generator,
      fun p hp => ?_⟩
    obtain rfl | hp := List.mem_cons.1 hp
    · exact G1.valid_generator
    · rw [List.eq_of_mem_replicate hp]
      trivial
  have hic : key.ic.length = VerificationKey.icCount := by simp [key, VerificationKey.icCount]
  obtain ⟨hread, -, hconvert⟩ := conversion_keeps_key
  have hname : "omega-v2".utf8ByteSize < 2 ^ 64 := by decide
  have hname' : "omega-v1".utf8ByteSize < 2 ^ 64 := by decide
  have hextension : PathName.extension? "omega-v2.bin" = some "bin" := by decide +kernel
  have hkey : (KeyFile.load before "omega-v2" "omega.bin").run =
      .ok { key with version := "omega-v2" } := by
    rw [KeyFile.run_load]
    exact KeyFile.key_write ⟨rfl, hic, hvalid⟩ hname' (by decide +kernel)
  have hwrite : (Node.carryOut before (fun _ _ => default) {}
      (.convertKey "omega-v2" "omega.bin" "omega-v2.bin")).run =
        .write "omega-v2.bin" (KeyCache.write { key with version := "omega-v2" }) := by
    rw [Node.run_convertKey, hkey]
  obtain ⟨-, loaded, hloaded, hagain⟩ := hconvert before
    (fun _ => .bytes (KeyCache.write { key with version := "omega-v2" })) (fun _ _ => default) {}
    "omega-v2" "omega.bin" "omega-v2.bin" "omega-v2.bin" _ hwrite hname hextension rfl
  cases hkey.symm.trans hloaded
  exact ⟨hread key hvalid hic hname', _, hwrite, hagain "omega-v2"⟩

end Reactions

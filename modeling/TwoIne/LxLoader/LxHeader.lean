import Mathlib.Data.List.Basic

/-! The header of an LX module: its fields, packed one behind the other. -/

namespace TwoIne

/-- The fields of the header with their sizes in bytes, in their order. -/
def lxHeaderFields : List (String × Nat) := [
  ("magic_l", 1), ("magic_x", 1), ("byte_order", 1), ("word_order", 1), ("lx_version", 4),
  ("cpu_type", 2), ("os_type", 2), ("module_version", 4), ("module_flags", 4),
  ("module_num_pages", 4), ("eip_object", 4), ("eip", 4), ("esp_object", 4), ("esp", 4),
  ("page_size", 4), ("page_offset_shift", 4), ("fixup_section_size", 4),
  ("fixup_section_checksum", 4), ("loader_section_size", 4), ("loader_section_checksum", 4),
  ("object_table_offset", 4), ("module_num_objects", 4), ("object_page_table_offset", 4),
  ("object_iter_pages_offset", 4), ("resource_table_offset", 4),
  ("num_resource_table_entries", 4), ("resident_name_table_offset", 4),
  ("entry_table_offset", 4), ("module_directives_offset", 4), ("num_module_directives", 4),
  ("fixup_page_table_offset", 4), ("fixup_record_table_offset", 4),
  ("import_module_table_offset", 4), ("num_import_mod_entries", 4),
  ("import_proc_table_offset", 4), ("per_page_checksum_offset", 4), ("data_pages_offset", 4),
  ("num_preload_pages", 4), ("non_resident_name_table_offset", 4),
  ("non_resident_name_table_len", 4), ("non_resident_name_table_checksum", 4),
  ("auto_ds_object_num", 4), ("debug_info_offset", 4), ("debug_info_len", 4),
  ("num_instance_preload", 4), ("num_instance_demand", 4), ("heapsize", 4)]

/-- The size of some fields. -/
def fieldsSize : List (String × Nat) → Nat
  | [] => 0
  | (_, size) :: rest => size + fieldsSize rest

/-- The offset of a field within the header. -/
def lxFieldOffset (field : String) : Nat :=
  fieldsSize (lxHeaderFields.takeWhile fun entry => entry.1 ≠ field)

/-- The size of the header. -/
def lxHeaderSize : Nat := fieldsSize lxHeaderFields

end TwoIne

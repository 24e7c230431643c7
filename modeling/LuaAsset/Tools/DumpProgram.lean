import LuaAsset.Bytes

/-! # The program that prints a table

The script that an external interpreter runs on a chunk to print one global table as a document. -/

set_option autoImplicit false

namespace LuaAsset

namespace TableDump

/-- The exit code for a global that is missing or no table. -/
def tableMissingExit : Int := 3

def programLines : List String := [
  "local chunk_path, table_name = ...",
  "local env = setmetatable(\x7b\x7d, \x7b __index = _G \x7d)",
  "local chunk, load_err = loadfile(chunk_path, \"bt\", env)",
  "if not chunk then",
  "  io.stderr:write(tostring(load_err), \"\\n\")",
  "  os.exit(1)",
  "end",
  "local ok, run_err = pcall(chunk)",
  "if not ok then",
  "  io.stderr:write(tostring(run_err), \"\\n\")",
  "  os.exit(1)",
  "end",
  "local target = rawget(env, table_name)",
  "if target == nil then",
  "  target = _G[table_name]",
  "end",
  "if type(target) ~= \"table\" then",
  "  io.stderr:write(string.format(\"table '%s' not found\\n\", table_name))",
  "  os.exit(3)",
  "end",
  "",
  "local function escape(s)",
  "  return (s:gsub('[%c\"\\\\]', function(c)",
  "    if c == '\"' then return '\\\\\"' end",
  "    if c == \"\\\\\" then return \"\\\\\\\\\" end",
  "    if c == \"\\n\" then return \"\\\\n\" end",
  "    if c == \"\\r\" then return \"\\\\r\" end",
  "    if c == \"\\t\" then return \"\\\\t\" end",
  "    return string.format(\"\\\\u%04x\", c:byte())",
  "  end))",
  "end",
  "",
  "local function number_repr(n)",
  "  if n ~= n or n == math.huge or n == -math.huge then",
  "    return \"null\"",
  "  end",
  "  if math.type(n) == \"integer\" then",
  "    return string.format(\"%d\", n)",
  "  end",
  "  local s = string.format(\"%.17g\", n)",
  "  if not s:find(\"[%.eEn]\") then",
  "    s = s .. \".0\"",
  "  end",
  "  return s",
  "end",
  "",
  "local function key_string(k)",
  "  if type(k) == \"string\" then",
  "    return k",
  "  end",
  "  return tostring(k)",
  "end",
  "",
  "local function key_less(a, b)",
  "  local an, bn = type(a) == \"number\", type(b) == \"number\"",
  "  if an and bn then",
  "    return a < b",
  "  end",
  "  if an ~= bn then",
  "    return an",
  "  end",
  "  return key_string(a) < key_string(b)",
  "end",
  "",
  "local function array_length(t)",
  "  local count, max = 0, 0",
  "  for k in pairs(t) do",
  "    if math.type(k) ~= \"integer\" or k < 1 then",
  "      return nil",
  "    end",
  "    count = count + 1",
  "    if k > max then",
  "      max = k",
  "    end",
  "  end",
  "  if count > 0 and count == max then",
  "    return max",
  "  end",
  "  return nil",
  "end",
  "",
  "local visiting = \x7b\x7d",
  "local encode",
  "",
  "local function encode_table(t)",
  "  local parts = \x7b\x7d",
  "  local n = array_length(t)",
  "  if n then",
  "    for i = 1, n do",
  "      parts[i] = encode(t[i])",
  "    end",
  "    return \"[\" .. table.concat(parts, \",\") .. \"]\"",
  "  end",
  "  local keys = \x7b\x7d",
  "  for k in pairs(t) do",
  "    keys[#keys + 1] = k",
  "  end",
  "  table.sort(keys, key_less)",
  "  for i, k in ipairs(keys) do",
  "    parts[i] = '\"' .. escape(key_string(k)) .. '\":' .. encode(t[k])",
  "  end",
  "  return \"\x7b\" .. table.concat(parts, \",\") .. \"\x7d\"",
  "end",
  "",
  "encode = function(v)",
  "  local t = type(v)",
  "  if t == \"boolean\" then",
  "    return tostring(v)",
  "  elseif t == \"number\" then",
  "    return number_repr(v)",
  "  elseif t == \"string\" then",
  "    return '\"' .. escape(v) .. '\"'",
  "  elseif t == \"table\" then",
  "    if visiting[v] then",
  "      return \"null\"",
  "    end",
  "    visiting[v] = true",
  "    local out = encode_table(v)",
  "    visiting[v] = nil",
  "    return out",
  "  end",
  "  return \"null\"",
  "end",
  "",
  "io.write(encode(target))"]

/-- The script; a line feed precedes its first line as well. -/
def program : Bytes :=
  Ascii.lineFeed :: programLines.flatMap fun line => text line ++ [Ascii.lineFeed]

end TableDump

end LuaAsset

/-!
# Sample files

The settings and the design that a new project starts with.
-/

namespace FormWeave.Sample

def file (lines : List String) : String := String.join (lines.map (· ++ "\n"))

def settings : String := file [
  "# formgen configuration",
  "",
  "# The design document code is generated from.",
  "design = \"design.json\"",
  "",
  "# Generated files are named <basename>.cxx and <basename>.h.",
  "basename = \"hello\"",
  "",
  "# Close every generated block with a checksum tag so hand edits can be merged back.",
  "write_mergeback_data = true",
  "",
  "# [i18n]",
  "# mode = \"gnu\"",
  "# gnu_function = \"gettext\""]

def design : String := file [
  "\x7b",
  "  \"items\": [",
  "    \x7b \"id\": 1, \"kind\": \"declaration\", \"text\": \"#include <stdio.h>\" \x7d,",
  "    \x7b",
  "      \"id\": 2,",
  "      \"kind\": \"function\",",
  "      \"name\": \"make_window()\",",
  "      \"return_type\": \"Fl_Double_Window*\",",
  "      \"children\": [",
  "        \x7b",
  "          \"id\": 3,",
  "          \"kind\": \"widget\",",
  "          \"class\": \"Fl_Double_Window\",",
  "          \"name\": \"main_window\",",
  "          \"label\": \"Hello\",",
  "          \"w\": 340,",
  "          \"h\": 180,",
  "          \"children\": [",
  "            \x7b",
  "              \"id\": 4,",
  "              \"kind\": \"widget\",",
  "              \"class\": \"Fl_Button\",",
  "              \"label\": \"Save\",",
  "              \"tooltip\": \"Save the document\",",
  "              \"callback\": \"puts(\\\"saved\\\");\",",
  "              \"x\": 130,",
  "              \"y\": 70,",
  "              \"w\": 80,",
  "              \"h\": 30",
  "            \x7d",
  "          ]",
  "        \x7d,",
  "        \x7b \"id\": 5, \"kind\": \"code\", \"code\": \"return main_window;\" \x7d",
  "      ]",
  "    \x7d",
  "  ]",
  "\x7d"]

end FormWeave.Sample

import PoxChat.Servlist.Networks
import PoxChat.Users.Userlist

/-!
# The preferences and their file

`save_config` and `load_config` of `cfgfiles.c`, over the bytes of `poxchat.conf`, in a client that is not built for
Windows.

* `Var`, `vars` — the rows of the table; each is for the field of `struct poxchatprefs` of its own name.
* `Prefs` — the values of the fields, strings and integers, by name.
* `cfgGetStr` — the reader: the first line that begins with the name and a space, in any case.
* `loadConfig` — over the preferences `load_default_config` puts there, which depend on the user and the machine.

The file itself opens and takes what is written.
-/

set_option autoImplicit false

namespace PoxChat.Config

open Lib Outbound Users Servlist Cap

/-! ## The table -/

inductive VarType where
  /-- `TYPE_STR`, with the size of the field. -/
  | str (len : Nat)
  | int
  | bool
  deriving DecidableEq

structure Var where
  name : String
  type : VarType
  deriving DecidableEq

/-- The name as the bytes of the file. -/
def Var.text (v : Var) : Bytes := v.name.toByteArray.data.toList

def str (name : String) (len : Nat) : Var := ⟨name, .str len⟩

def int (name : String) : Var := ⟨name, .int⟩

def bool (name : String) : Var := ⟨name, .bool⟩

def FONTNAMELEN : Nat := 127
def PATHLEN : Nat := 255
def DOMAINLEN : Nat := 100

/-- `vars[]`. -/
def vars : List Var :=
  [bool "away_auto_unmark", bool "away_omit_alerts", str "away_reason" 256, bool "away_show_once",
    int "away_size_max", int "away_timeout", bool "away_track", int "completion_amount", bool "completion_auto",
    int "completion_sort", str "completion_suffix" 4, bool "dcc_auto_chat", int "dcc_auto_recv",
    bool "dcc_auto_resume", int "dcc_blocksize", str "dcc_completed_dir" (PATHLEN + 1),
    str "dcc_dir" (PATHLEN + 1), bool "dcc_fast_send", int "dcc_global_max_get_cps",
    int "dcc_global_max_send_cps", str "dcc_ip" (DOMAINLEN + 1), bool "dcc_ip_from_server",
    int "dcc_max_get_cps", int "dcc_max_send_cps", int "dcc_permissions", int "dcc_port_first",
    int "dcc_port_last", bool "dcc_remove", bool "dcc_save_nick", bool "dcc_send_fillspaces",
    int "dcc_stall_timeout", int "dcc_timeout", int "flood_ctcp_num", int "flood_ctcp_time", int "flood_msg_num",
    int "flood_msg_time", bool "gui_autoopen_chat", bool "gui_autoopen_dialog", bool "gui_autoopen_recv",
    bool "gui_autoopen_send", int "gui_chanlist_maxusers", int "gui_chanlist_minusers",
    bool "gui_collapse_multiline", int "gui_collapse_page_divisor", int "gui_collapse_threshold",
    bool "gui_compact", bool "gui_day_separator", bool "gui_emoji_sprites", int "gui_dialog_height",
    int "gui_dialog_left", int "gui_dialog_top", int "gui_dialog_width", bool "gui_filesize_iec",
    bool "gui_focus_omitalerts", bool "gui_hide_menu", bool "gui_input_attr", bool "gui_input_icon",
    int "gui_input_lines", bool "gui_input_nick", int "gui_input_paste_lines", bool "gui_input_spell",
    bool "gui_input_style", bool "gui_join_dialog", int "gui_lagometer", int "gui_lang", bool "gui_mode_buttons",
    bool "gui_network_icons", int "gui_pane_divider_position", int "gui_pane_left_size",
    int "gui_pane_right_size", int "gui_pane_right_size_min", bool "gui_quit_dialog", int "gui_search_pos",
    bool "gui_slist_fav", int "gui_slist_select", bool "gui_slist_skip", int "gui_scroll_lines",
    bool "gui_tab_chans", bool "gui_tab_dialogs", bool "gui_tab_dots", bool "gui_tab_icons",
    int "gui_tab_layout", bool "gui_tab_middleclose", int "gui_tab_newtofront", int "gui_tab_pos",
    bool "gui_tab_scrollchans", bool "gui_tab_server", int "gui_tab_small", bool "gui_tab_sort",
    int "gui_tab_trunc", bool "gui_tab_utils", int "gui_throttlemeter", bool "gui_topicbar",
    int "gui_transparency", bool "gui_tray", bool "gui_tray_away", bool "gui_tray_blink", bool "gui_tray_close",
    bool "gui_tray_minimize", bool "gui_tray_quiet", bool "gui_ulist_buttons", bool "gui_ulist_color",
    bool "gui_ulist_count", str "gui_ulist_doubleclick" 256, bool "gui_ulist_hide", bool "gui_ulist_icons",
    int "gui_ulist_pos", bool "gui_ulist_show_hosts", int "gui_ulist_sort", bool "gui_ulist_style",
    int "gui_url_mod", bool "gui_usermenu", int "gui_win_desktop", int "gui_win_height",
    int "gui_win_fullscreen", int "gui_win_left", bool "gui_win_modes", bool "gui_win_nick", bool "gui_win_save",
    int "gui_win_state", bool "gui_win_sticky", bool "gui_win_swap", int "gui_win_top", bool "gui_win_ucount",
    int "gui_win_width", bool "identd_server", int "identd_port", bool "input_balloon_chans",
    bool "input_balloon_hilight", bool "input_balloon_priv", bool "input_beep_chans", bool "input_beep_hilight",
    bool "input_beep_priv", str "input_command_char" 4, bool "input_filter_beep", bool "input_flash_chans",
    bool "input_flash_hilight", bool "input_flash_priv", bool "input_perc_ascii", bool "input_perc_color",
    bool "input_tray_chans", bool "input_tray_hilight", bool "input_tray_priv", bool "irc_auto_rejoin",
    bool "irc_reconnect_rejoin", int "irc_ban_type", bool "irc_cap_server_time", bool "irc_chathistory_auto",
    int "irc_chathistory_lines", bool "irc_chathistory_scroll", bool "irc_chathistory_background",
    int "irc_chathistory_background_delay", int "irc_chathistory_background_max_age", bool "irc_gapfill",
    int "irc_gapfill_bootstrap_hours", int "irc_gapfill_catchup_budget", bool "irc_conf_mode",
    str "irc_extra_hilight" 300, bool "irc_hide_nickchange", bool "irc_hide_version", bool "irc_hidehost",
    str "irc_id_ntext" 64, str "irc_id_ytext" 64, str "irc_oper_text" 64, bool "irc_invisible",
    int "irc_join_delay", bool "irc_logging", str "irc_logmask" 256, str "irc_nick1" NICKLEN,
    str "irc_nick2" NICKLEN, str "irc_nick3" NICKLEN, str "irc_nick_hilight" 300, str "irc_no_hilight" 300,
    int "irc_notice_pos", str "irc_part_reason" 256, str "irc_quit_reason" 256, bool "irc_raw_modes",
    bool "irc_react_show", str "irc_real_name" 127, bool "irc_reply_show", bool "irc_servernotice",
    bool "irc_skip_motd", bool "irc_typing_self", bool "irc_typing_send", bool "irc_typing_show",
    str "irc_user_name" 127, bool "irc_wallops", bool "irc_who_join", bool "irc_whois_front",
    bool "net_auto_reconnect", bool "net_auto_reconnectonfail", str "net_bind_host" 127, int "net_ping_timeout",
    bool "net_proxy_auth", str "net_proxy_host" 64, str "net_proxy_pass" 256, int "net_proxy_port",
    int "net_proxy_type", int "net_proxy_use", str "net_proxy_user" 256, int "net_reconnect_delay",
    bool "net_throttle", int "notify_timeout", bool "notify_whois_online", bool "perl_warnings",
    bool "stamp_log", str "stamp_log_format" 64, bool "stamp_text", str "stamp_text_format" 64,
    bool "text_autocopy_color", bool "text_autocopy_stamp", bool "text_autocopy_text",
    str "text_background" (PATHLEN + 1), bool "text_color_nicks", str "text_font" (4 * FONTNAMELEN + 1),
    str "text_font_main" (FONTNAMELEN + 1), str "text_font_alternative" (3 * FONTNAMELEN + 1),
    bool "text_indent", int "text_max_indent", int "text_max_lines", bool "text_replay",
    bool "text_search_case_match", bool "text_search_highlight_all", bool "text_search_follow",
    bool "text_search_regexp", bool "text_show_marker", bool "text_show_sep", str "text_spell_langs" 64,
    bool "text_stripcolor_msg", bool "text_stripcolor_replay", bool "text_stripcolor_topic",
    bool "text_thin_sep", bool "text_transparent", bool "text_wordwrap", bool "url_grabber",
    int "url_grabber_limit", bool "url_image_strip_exif", str "url_image_upload" 256,
    bool "url_image_upload_enable", bool "url_logging"]

/-! ## Preferences -/

structure Prefs where
  str : String → Bytes
  int : String → Int32

def Prefs.setStr (prefs : Prefs) (name : String) (value : Bytes) : Prefs :=
  { prefs with str := fun n => if n = name then value else prefs.str n }

def Prefs.setInt (prefs : Prefs) (name : String) (value : Int32) : Prefs :=
  { prefs with int := fun n => if n = name then value else prefs.int n }

/-- A string up to its first space. -/
def cutSpace (str : Bytes) : Bytes := str.takeWhile (· ≠ space)

/-- What `load_config` does to the window size and to the user name at its end. -/
def Prefs.clamp (prefs : Prefs) : Prefs :=
  let prefs := if prefs.int "gui_win_height" < 138 then prefs.setInt "gui_win_height" 138 else prefs
  let prefs := if prefs.int "gui_win_width" < 106 then prefs.setInt "gui_win_width" 106 else prefs
  prefs.setStr "irc_user_name" (cutSpace (prefs.str "irc_user_name"))

/-! ## Writing -/

/-- `cfg_put_str`, with a `char buf[512]`. -/
def cfgPutStr (var value : Bytes) : Bytes := (assign var value ++ [newline]).take 511

/-- `cfg_put_int`, with a `char buf[400]`. -/
def cfgPutInt (value : Int32) (var : Bytes) : Bytes :=
  let value := if value = -1 then 1 else value
  (assign var (percentD value.toInt) ++ [newline]).take 399

def Prefs.put (prefs : Prefs) (v : Var) : Bytes :=
  match v.type with
  | .str _ => cfgPutStr v.text (prefs.str v.name)
  | .int => cfgPutInt (prefs.int v.name) v.text
  | .bool => cfgPutInt (prefs.int v.name) v.text

/-- `save_config`: the bytes of the file. -/
def saveConfig (prefs : Prefs) : Bytes := cfgPutStr (bytes "version") PACKAGE_VERSION ++ vars.flatMap prefs.put

/-! ## Reading -/

/-- `g_ascii_strncasecmp (buffer, cfg, strlen (var) + 1)` is 0. -/
def cfgStarts (var cfg : Bytes) : Bool := ((var ++ [space]).map asciiTolower).isPrefixOf (cfg.map asciiTolower)

/-- A string without a `'\r'` at its end. -/
def chomp (str : Bytes) : Bytes := if str.getLast? = some 13 then str.dropLast else str

/-- The value of a line, from behind the name. -/
def cfgValue (cfg : Bytes) : Bytes :=
  let cfg := cfg.dropWhile (· = space)
  let cfg := if cfg.head? = some (byte '=') then cfg.drop 1 else cfg
  chomp ((cfg.dropWhile (· = space)).takeWhile (· ≠ newline))

/-- The loop of `cfg_get_str`, for so many lines. -/
def cfgFind (var : Bytes) : Nat → Bytes → Option Bytes
  | 0, _ => none
  | fuel + 1, cfg =>
    if cfgStarts var cfg then some (cfgValue (cfg.drop var.length))
    else
      match (cfg.dropWhile (· ≠ newline)).drop 1 with
      | [] => none
      | cfg => cfgFind var fuel cfg

/-- `cfg_get_str`. -/
def cfgGetStr (cfg var : Bytes) (destLen : Nat) : Option Bytes :=
  (cfgFind var (cfg.length + 1) cfg).map (safeStrcpy · destLen)

/-- `cfg_get_int_with_result`, with a `char str[128]`. -/
def cfgGetInt (cfg var : Bytes) : Option Int32 := (cfgGetStr cfg var 128).map fun str => Int32.ofInt (atoi str)

/-- One round of the loop of `load_config`. -/
def Prefs.get (cfg : Bytes) (prefs : Prefs) (v : Var) : Prefs :=
  match v.type with
  | .str len => ((cfgGetStr cfg v.text len).map (prefs.setStr v.name)).getD prefs
  | .int => ((cfgGetInt cfg v.text).map (prefs.setInt v.name)).getD prefs
  | .bool => ((cfgGetInt cfg v.text).map (prefs.setInt v.name)).getD prefs

/-- `load_config`, where `load_default_config` gives `defaults`. -/
def loadConfig (defaults : Prefs) (cfg : Bytes) : Prefs := (vars.foldl (Prefs.get cfg) defaults).clamp

/-! ## What is meant -/

/-- Every string fits its field and has no line break. -/
def Prefs.Fit (prefs : Prefs) : Prop :=
  ∀ v ∈ vars, ∀ len, v.type = .str len →
    (prefs.str v.name).length < len ∧ newline ∉ prefs.str v.name ∧ (0 : UInt8) ∉ prefs.str v.name

/-- Two preference states have the same values in the table. -/
def Prefs.Agree (prefs prefs' : Prefs) : Prop :=
  ∀ v ∈ vars, match v.type with
    | .str _ => prefs.str v.name = prefs'.str v.name
    | _ => prefs.int v.name = prefs'.int v.name

/-- The file that was written gives the preferences back, clamped and cut. -/
def Prefs.Restored (defaults prefs : Prefs) : Prop := (loadConfig defaults (saveConfig prefs)).Agree prefs.clamp

/-! ## The names of the table -/

/-- A lower case letter, a digit or an underscore. -/
def isNameChar (c : UInt8) : Bool := 97 ≤ c && c ≤ 122 || 48 ≤ c && c ≤ 57 || c == 95

/-- A name as one number. -/
def textCode (text : Bytes) : Nat := text.foldl (fun n c => 256 * n + c.toNat) 0

def distinctCodes : List Nat → Bool
  | [] => true
  | code :: codes => codes.all (fun code' => ! Nat.beq code code') && distinctCodes codes

theorem nodup_of_distinctCodes {codes : List Nat} (h : distinctCodes codes = true) : codes.Nodup := by
  induction codes with
  | nil => exact .nil
  | cons code codes ih =>
    obtain ⟨hfirst, hrest⟩ := Bool.and_eq_true_iff.1 h
    refine List.nodup_cons.2 ⟨fun hmem => ?_, ih hrest⟩
    have := List.all_eq_true.1 hfirst code hmem
    simp at this

/-- Codes are only compared with those of the same remainder. -/
theorem nodup_of_remainders {codes : List Nat} {m : Nat} (hm : 0 < m)
    (h : ((List.range m).all fun r => distinctCodes (codes.filter fun code => Nat.beq (code % m) r)) = true) : codes.Nodup := by
  refine List.nodup_iff_sublist.2 fun code hpair => ?_
  have hcodes := nodup_of_distinctCodes (List.all_eq_true.1 h (code % m) (List.mem_range.2 (Nat.mod_lt code hm)))
  refine List.nodup_iff_sublist.1 hcodes code ?_
  have hkept : [code, code].filter (fun code' => Nat.beq (code' % m) (code % m)) = [code, code] := by simp
  rw [← hkept]
  exact hpair.filter _

/-- Room for the longest value in the buffers of `cfg_put_str` and `cfg_put_int`. -/
def Var.roomy (v : Var) : Bool :=
  match v.type with
  | .str len => v.text.length + 3 + len ≤ 511
  | _ => true

/-- Every name is short and made of name characters, no two are alike, and only `text_font` can be too long. -/
theorem vars_checked :
    (vars.all fun v => v.text.length ≤ 40 && v.text.all isNameChar) = true ∧
      ((List.range 16).all fun r => distinctCodes
        ((textCode (bytes "version") :: vars.map fun v => textCode v.text).filter fun code => Nat.beq (code % 16) r)) = true ∧
      (vars.filter fun v => ! v.roomy) = [str "text_font" (4 * FONTNAMELEN + 1)] := by
  decide +kernel

theorem text_facts {v : Var} (hv : v ∈ vars) : v.text.length ≤ 40 ∧ ∀ c ∈ v.text, isNameChar c = true := by
  have h := List.all_eq_true.1 vars_checked.1 v hv
  obtain ⟨hlen, hall⟩ := Bool.and_eq_true_iff.1 h
  exact ⟨of_decide_eq_true hlen, List.all_eq_true.1 hall⟩

theorem texts_nodup : (bytes "version" :: vars.map Var.text).Nodup := by
  refine List.Nodup.of_map textCode ?_
  rw [List.map_cons, List.map_map]
  exact nodup_of_remainders (by decide) vars_checked.2.1

theorem text_injective {v w : Var} (hv : v ∈ vars) (hw : w ∈ vars) (h : v.text = w.text) : v = w :=
  List.inj_on_of_nodup_map (List.nodup_cons.1 texts_nodup).2 hv hw h

def textFont : Var := str "text_font" (4 * FONTNAMELEN + 1)

def textFontMain : Var := str "text_font_main" (FONTNAMELEN + 1)

theorem roomy_of_ne {v : Var} (hv : v ∈ vars) (hne : v ≠ textFont) : v.roomy = true := by
  by_contra hroom
  have hmem : v ∈ vars.filter fun v => ! v.roomy := List.mem_filter.2 ⟨hv, by simpa using hroom⟩
  rw [vars_checked.2.2] at hmem
  exact hne (List.mem_singleton.1 hmem)

end PoxChat.Config
